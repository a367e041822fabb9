import EventTransfer.JavaServer

/-!
# Who has an event in the Java server

The places of an event are counted over all lists, conductors, threads and owners.  Every step
moves events from one summand to another, as long as clients name events that they hold
(`javaEvents_inOnePlace`).  Without that an event can come to be in two lists
(`javaServer_put_of_listed`): the server looks events up by their ids, and does not look at the
owner as the C server does.
-/

namespace EventTransfer

open StepRun Tally WaterFill

/-! ### Sums over stations -/

section Conductor

variable {hdr : ℕ → EventHeader} {select : ℕ → ℕ → Bool} {stationsMax : ℕ}
  {stat stat' : ℕ → JavaStation} {batch left : List ℕ} {given : ℕ → List ℕ} {S : Finset ℕ}

/-- **What a stop takes from the batch is in the input lists.** -/
theorem Hands.sum_input {members : List ℕ} (h : Hands hdr members stat stat' batch left given)
    (hnodup : members.Nodup) (hS : ∀ s ∈ members, s ∈ S) (e : ℕ) :
    ∑ s ∈ S, (stat' s).input.count e + left.count e =
      ∑ s ∈ S, (stat s).input.count e + batch.count e := by
  have hinput : ∀ s, (stat' s).input.count e = (stat s).input.count e + (given s).count e :=
    fun s => by
      rw [h.input, (llistWrite_perm (isHigh hdr) _ _).count_eq, List.count_append]
  have hactives : (actives stat members).Nodup := hnodup.filter _
  have hgiven : ∑ s ∈ S, (given s).count e = ((actives stat members).flatMap given).count e := by
    rw [List.count_flatMap, ← List.sum_toFinset _ hactives]
    refine (Finset.sum_subset (fun s hs => ?_) fun s _ hs => ?_).symm
    · exact hS s (actives_subset stat members (List.mem_toFinset.mp hs))
    · rw [h.only s fun hc => hs (List.mem_toFinset.mpr hc), List.count_nil]
  have hperm := h.perm.count_eq e
  rw [List.count_append] at hperm
  simp only [hinput, Finset.sum_add_distrib]
  omega

/-- **A pass that has what it relies on** puts its batch into the input lists. -/
theorem conduct_sum {slots : List JavaSlot} (hnodup : (slots.flatMap JavaSlot.members).Nodup)
    (hS : ∀ s ∈ slots.flatMap JavaSlot.members, s ∈ S) (h0 : 0 ∈ S)
    (hfits : Comes hdr select stationsMax
      (fun slot stat getList => slot.Fits stationsMax stat getList) slots stat batch)
    (h : conduct hdr select stationsMax slots stat batch = some stat') (e : ℕ) :
    ∑ s ∈ S, (stat' s).input.count e = ∑ s ∈ S, (stat s).input.count e + batch.count e := by
  induction slots generalizing stat batch with
  | nil =>
      obtain rfl := Option.some.inj h
      have hcount : ∀ s, (Function.update stat 0
          { stat 0 with input := (stat 0).input ++ batch } s).input.count e =
          Function.update (fun s => (stat s).input.count e) 0
            ((stat 0).input.count e + batch.count e) s := fun s => by
        rcases eq_or_ne s 0 with rfl | hs
        · rw [Function.update_self, Function.update_self, List.count_append]
        · rw [Function.update_of_ne hs, Function.update_of_ne hs]
      have hsum := sum_update h0 (fun s => (stat s).input.count e)
        ((stat 0).input.count e + batch.count e)
      simp only [hcount]
      omega
  | cons slot rest ih =>
      rw [conduct] at h
      by_cases hbatch : batch = []
      · rw [if_pos hbatch] at h
        obtain rfl := Option.some.inj h
        rw [hbatch, List.count_nil, Nat.add_zero]
      · rw [if_neg hbatch] at h
        obtain ⟨r, hstop, hrest⟩ := Option.bind_eq_some_iff.mp h
        rw [List.flatMap_cons] at hnodup hS
        obtain ⟨hslot, hnodup', -⟩ := List.nodup_append'.mp hnodup
        obtain ⟨hfit, hlater⟩ := hfits.resolve_left hbatch
        obtain ⟨stat₁, left, given, hstop', hspec⟩ := slot.stop_spec hslot hbatch hfit
        obtain rfl := Option.some.inj (hstop.symm.trans hstop')
        have hhands := hspec.hands.sum_input hslot
          (fun s hs => hS s (List.mem_append_left _ hs)) e
        have hpass := ih hnodup' (fun s hs => hS s (List.mem_append_right _ hs)) (hlater _ hstop)
          hrest
        dsimp only at hpass
        omega

/-- A pass comes through where every group has what the algorithm relies on. -/
theorem conduct_of_fits {slots : List JavaSlot} (hnodup : (slots.flatMap JavaSlot.members).Nodup)
    (hfits : Comes hdr select stationsMax
      (fun slot stat getList => slot.Fits stationsMax stat getList) slots stat batch) :
    ∃ stat', conduct hdr select stationsMax slots stat batch = some stat' := by
  induction slots generalizing stat batch with
  | nil => exact ⟨_, rfl⟩
  | cons slot rest ih =>
      rw [conduct]
      by_cases hbatch : batch = []
      · exact ⟨stat, if_pos hbatch⟩
      · rw [if_neg hbatch]
        obtain ⟨hfit, hrest⟩ := hfits.resolve_left hbatch
        rw [List.flatMap_cons] at hnodup
        obtain ⟨hslot, hnodup', -⟩ := List.nodup_append'.mp hnodup
        obtain ⟨stat₁, left, given, hstop, -⟩ := slot.stop_spec hslot hbatch hfit
        rw [hstop]
        exact ih hnodup' (hrest _ hstop)

end Conductor

theorem JavaChain.mem_ids {chain : JavaChain} {s : ℕ} :
    s ∈ chain.ids ↔ s = 0 ∨ s ∈ chain.slots.flatMap JavaSlot.members := by
  rw [ids, Finset.mem_insert, List.mem_toFinset]

theorem JavaChain.zero_mem_ids (chain : JavaChain) : 0 ∈ chain.ids := mem_ids.mpr (.inl rfl)

/-- Every station has places behind its own. -/
theorem JavaChain.exists_following {chain : JavaChain} {self : ℕ} (h : self ∈ chain.ids) :
    ∃ slots, chain.following self = some slots ∧
      (slots.flatMap JavaSlot.members).Sublist (chain.slots.flatMap JavaSlot.members) := by
  have hposition : chain.position self ≤ chain.slots.length := by
    unfold position
    rcases mem_ids.mp h with rfl | hmem
    · rw [if_pos rfl]
      exact Nat.zero_le _
    · split
      · exact Nat.zero_le _
      · split
        case isTrue hhead =>
          obtain ⟨slot, hslot, heq⟩ := hhead
          have := List.findIdx_lt_length_of_exists (p := fun slot => decide (slot.head = self))
            ⟨slot, hslot, decide_eq_true heq⟩
          omega
        case isFalse =>
          obtain ⟨slot, hslot, hin⟩ := List.mem_flatMap.mp hmem
          have := List.findIdx_lt_length_of_exists (p := fun slot => decide (self ∈ slot.members))
            ⟨slot, hslot, decide_eq_true hin⟩
          omega
  refine ⟨_, if_pos hposition, ?_⟩
  have hsub := List.sublist_append_right
    ((chain.slots.take (chain.position self)).flatMap JavaSlot.members)
    ((chain.slots.drop (chain.position self)).flatMap JavaSlot.members)
  rwa [← List.flatMap_append, List.take_append_drop] at hsub

/-! ### Lists -/

/-- What is taken and what is left are the list. -/
theorem JavaGet.take_perm {hdr : ℕ → EventHeader} {events : List ℕ} {call : JavaGet}
    {r : List ℕ × List ℕ} (h : call.take hdr events = some r) : (r.1 ++ r.2).Perm events := by
  cases call with
  | get quantity =>
      rw [take] at h
      split at h
      · cases h
      · obtain rfl := Option.some.inj h
        rw [List.take_append_drop]
  | getGroup quantity group =>
      rw [take] at h
      split at h
      · cases h
      · dsimp only at h
        split at h
        · cases h
        · obtain rfl := Option.some.inj h
          exact takeWhere_perm

/-- **`put` puts all events in**, when `lastHigh` is not behind the end of the list, and then it
is not afterwards. -/
theorem putLoop_perm (hdr : ℕ → EventHeader) {lastHigh : ℕ} {events : List ℕ}
    (h : lastHigh ≤ events.length) (new : List ℕ) :
    (putLoop hdr lastHigh events new).2.1.Perm (events ++ new) ∧
      (putLoop hdr lastHigh events new).1 ≤ (putLoop hdr lastHigh events new).2.1.length ∧
      (putLoop hdr lastHigh events new).2.2 = true := by
  induction new generalizing lastHigh events with
  | nil => exact ⟨by rw [List.append_nil]; exact .refl _, h, rfl⟩
  | cons e new ih =>
      rw [putLoop]
      split
      · have hlength : lastHigh + 1 ≤ (events.insertIdx lastHigh e).length := by
          rw [List.length_insertIdx_of_le_length h]
          omega
        obtain ⟨hperm, hlast, hok⟩ := ih hlength
        refine ⟨hperm.trans ?_, hlast, hok⟩
        exact ((List.perm_insertIdx e events h).append_right new).trans List.perm_middle.symm
      · have hlength : lastHigh ≤ (events ++ [e]).length := by
          rw [List.length_append]
          omega
        obtain ⟨hperm, hlast, hok⟩ := ih hlength
        refine ⟨hperm.trans ?_, hlast, hok⟩
        rw [List.append_assoc]
        exact .refl _

namespace JavaServer

section Sums

variable {ι : Type} {setup : JavaSetup ι} {s : JavaServer ι}

theorem listed_setInput {stat : ℕ} (hstat : stat ∈ setup.chain.ids) (xs : List ℕ) (e : ℕ) :
    (s.setInput stat xs).listed setup e + (s.stat stat).input.count e =
      s.listed setup e + xs.count e := by
  have hcount : ∀ t, ((s.setInput stat xs).stat t).input.count e +
      ((s.setInput stat xs).output t).count e =
        Function.update (fun t => (s.stat t).input.count e + (s.output t).count e) stat
          (xs.count e + (s.output stat).count e) t := fun t => by
    rcases eq_or_ne t stat with rfl | ht
    · simp [setInput]
    · simp [setInput, ht]
  have hsum := sum_update hstat (fun t => (s.stat t).input.count e + (s.output t).count e)
    (xs.count e + (s.output stat).count e)
  simp only [listed, hcount]
  omega

/-- One output list is written. -/
theorem sum_output {stat : ℕ} (hstat : stat ∈ setup.chain.ids) (xs : List ℕ) (e : ℕ) :
    ∑ t ∈ setup.chain.ids, ((s.stat t).input.count e +
      (Function.update s.output stat xs t).count e) + (s.output stat).count e =
        s.listed setup e + xs.count e := by
  have hcount : ∀ t, (s.stat t).input.count e + (Function.update s.output stat xs t).count e =
      Function.update (fun t => (s.stat t).input.count e + (s.output t).count e) stat
        ((s.stat stat).input.count e + xs.count e) t := fun t => by
    rcases eq_or_ne t stat with rfl | ht
    · simp
    · simp [ht]
  have hsum := sum_update hstat (fun t => (s.stat t).input.count e + (s.output t).count e)
    ((s.stat stat).input.count e + xs.count e)
  simp only [listed, hcount]
  omega

/-- One conductor's batch is another. -/
theorem sum_getList {stat : ℕ} (hstat : stat ∈ setup.chain.ids) (b : Option (List ℕ)) (e : ℕ) :
    ∑ t ∈ setup.chain.ids, ((Function.update s.getList stat b t).getD []).count e +
      ((s.getList stat).getD []).count e = s.conducted setup e + (b.getD []).count e := by
  have hcount : ∀ t, ((Function.update s.getList stat b t).getD []).count e =
      Function.update (fun t => ((s.getList t).getD []).count e) stat ((b.getD []).count e) t :=
    fun t => by
      rcases eq_or_ne t stat with rfl | ht
      · simp
      · simp [ht]
  have hsum := sum_update hstat (fun t => ((s.getList t).getD []).count e) ((b.getD []).count e)
  simp only [conducted, hcount]
  omega

end Sums

variable {ι : Type} [Fintype ι] {setup : JavaSetup ι} {s : JavaServer ι}

theorem carried_update [DecidableEq ι] (i : ι) (t : JavaThread) (e : ℕ) :
    tally (JavaThread.carries e) (Function.update s.thread i t) + (s.thread i).carries e =
      s.carried e + t.carries e :=
  tally_update (JavaThread.carries e) s.thread i t

/-- **The invariant.**  The events of an answer are those that the attachment holds, until they
go back. -/
structure Inv (setup : JavaSetup ι) (s : JavaServer ι) : Prop where
  once : ∀ e, s.listed setup e + s.conducted setup e + s.carried e + s.held e =
    if e < setup.numEvents then 1 else 0
  lastHigh : ∀ stat, s.output stat = [] ∨ s.lastHigh stat ≤ (s.output stat).length
  known : ∀ i attId evs new modify, s.thread i = .got attId evs new modify →
    setup.client attId = some i
  answered : ∀ i attId evs, s.thread i = .answered attId evs →
    setup.client attId = some i ∧ evs.Nodup ∧ ∀ e ∈ evs, s.owner e = some attId

/-- The places of an event are at most one. -/
theorem Inv.le_one (h : s.Inv setup) (e : ℕ) :
    s.listed setup e + s.conducted setup e + s.carried e + s.held e ≤ 1 := by
  rw [h.once]
  split <;> omega

/-- An event that a thread carries is held by no attachment, and carried once. -/
theorem Inv.carries (h : s.Inv setup) (i : ι) (e : ℕ) :
    (s.thread i).carries e ≤ 1 ∧ ((s.thread i).carries e = 1 → s.owner e = none) := by
  have hle := h.le_one e
  have hcarried : (s.thread i).carries e ≤ s.carried e := le_tally (JavaThread.carries e) s.thread i
  refine ⟨by omega, fun hone => ?_⟩
  have hheld : s.held e = 0 := by omega
  unfold held at hheld
  cases howner : s.owner e with
  | none => rfl
  | some attId => simp [howner] at hheld

/-- Headers are not looked at. -/
theorem Inv.setHdr (h : s.Inv setup) (hdr : ℕ → EventHeader) : ({ s with hdr := hdr }).Inv setup :=
  ⟨h.once, h.lastHigh, h.known, h.answered⟩

/-- A conductor takes what is in the output list. -/
theorem Inv.collect (h : s.Inv setup) {self : ℕ} (hself : self ∈ setup.chain.ids) :
    (s.collect self).Inv setup := by
  unfold JavaServer.collect
  split
  case h_1 hbatch =>
    refine ⟨fun e => ?_, fun t => ?_, h.known, h.answered⟩
    · have houtput := sum_output (s := s) hself [] e
      have hget := sum_getList (s := s) hself (some (s.output self)) e
      rw [hbatch, Option.getD_some, List.count_nil] at hget
      rw [List.count_nil] at houtput
      have honce := h.once e
      change ∑ t ∈ setup.chain.ids, ((s.stat t).input.count e +
        (Function.update s.output self [] t).count e) + ∑ t ∈ setup.chain.ids,
          ((Function.update s.getList self (some (s.output self)) t).getD []).count e +
            s.carried e + s.held e = _
      rw [← honce]
      rw [Option.getD_some] at hget
      omega
    · change Function.update s.output self [] t = [] ∨ s.lastHigh t ≤
        (Function.update s.output self [] t).length
      rcases eq_or_ne t self with rfl | ht
      · exact .inl (Function.update_self ..)
      · rw [Function.update_of_ne ht]
        exact h.lastHigh t
  case h_2 => exact h

variable [DecidableEq ι]

/-- **A step of one thread**, or of none. -/
theorem Inv.frame {s' : JavaServer ι} (h : s.Inv setup)
    (honce : ∀ e, s'.listed setup e + s'.conducted setup e + s'.carried e + s'.held e =
      s.listed setup e + s.conducted setup e + s.carried e + s.held e)
    (hlast : ∀ stat, s'.output stat = [] ∨ s'.lastHigh stat ≤ (s'.output stat).length)
    {i : ι} {t : JavaThread} (hthread : s'.thread = Function.update s.thread i t)
    (hknown : ∀ attId evs new modify, t = .got attId evs new modify →
      setup.client attId = some i)
    (hanswered : ∀ attId evs, t = .answered attId evs →
      setup.client attId = some i ∧ evs.Nodup ∧ ∀ e ∈ evs, s'.owner e = some attId)
    (howner : ∀ j, j ≠ i → ∀ attId evs, s.thread j = .answered attId evs →
      ∀ e ∈ evs, s'.owner e = s.owner e) : s'.Inv setup := by
  refine ⟨fun e => (honce e).trans (h.once e), hlast, fun j attId evs new modify hj => ?_,
    fun j attId evs hj => ?_⟩
  · rw [hthread] at hj
    rcases eq_or_ne j i with rfl | hne
    · rw [Function.update_self] at hj
      exact hknown attId evs new modify hj
    · rw [Function.update_of_ne hne] at hj
      exact h.known j attId evs new modify hj
  · rw [hthread] at hj
    rcases eq_or_ne j i with rfl | hne
    · rw [Function.update_self] at hj
      exact hanswered attId evs hj
    · rw [Function.update_of_ne hne] at hj
      obtain ⟨hclient, hnodup, howned⟩ := h.answered j attId evs hj
      exact ⟨hclient, hnodup, fun e he => (howner j hne attId evs hj e he).trans (howned e he)⟩

/-! ### Commands -/

/-- A thread that carries nothing, and goes on without anything. -/
theorem Inv.setThread (h : s.Inv setup) {i : ι} {t : JavaThread}
    (hi : ∀ e, (s.thread i).carries e = 0) (ht : t = .idle ∨ t = .dead) :
    (s.setThread i t).Inv setup := by
  refine h.frame (fun e => ?_) h.lastHigh rfl ?_ ?_ fun _ _ _ _ _ _ _ => rfl
  · have hcarried := carried_update (s := s) i t e
    have hnone : t.carries e = 0 := by rcases ht with rfl | rfl <;> rfl
    have := hi e
    change s.listed setup e + s.conducted setup e +
      tally (JavaThread.carries e) (Function.update s.thread i t) + s.held e = _
    omega
  · rintro attId evs new modify rfl
    rcases ht with ht | ht <;> cases ht
  · rintro attId evs rfl
    rcases ht with ht | ht <;> cases ht

/-- **Events are taken from a list** by a thread that goes on with them, or that has none. -/
theorem Inv.takeFrom (h : s.Inv setup) {i : ι} (hi : s.thread i = .idle) {stat : ℕ}
    (hstat : stat ∈ setup.chain.ids) {call : JavaGet} {after : List ℕ → JavaThread}
    (hafter : ∀ r, call.take s.hdr (s.stat stat).input = some r →
      (∃ attId new modify, setup.client attId = some i ∧
        after r.1 = .got attId r.1 new modify) ∨ r.1 = [] ∧ after r.1 = .dead) :
    (s.takeFrom i stat call after).Inv setup := by
  unfold JavaServer.takeFrom
  cases htake : call.take s.hdr (s.stat stat).input with
  | none => exact h
  | some r =>
      have hperm := JavaGet.take_perm htake
      have hafter := hafter r htake
      have hcarries : ∀ e, (after r.1).carries e = r.1.count e := fun e => by
        rcases hafter with ⟨attId, new, modify, -, heq⟩ | ⟨hnil, heq⟩
        · rw [heq]
          rfl
        · rw [heq, hnil]
          rfl
      refine h.frame (fun e => ?_) h.lastHigh rfl ?_ ?_ fun _ _ _ _ _ _ _ => rfl
      · have hlisted := listed_setInput (s := s) hstat r.2 e
        have hcarried := carried_update (s := s) i (after r.1) e
        have hcount := hperm.count_eq e
        have hnone : (s.thread i).carries e = 0 := by rw [hi]; rfl
        rw [List.count_append] at hcount
        rw [hcarries] at hcarried
        change (s.setInput stat r.2).listed setup e + s.conducted setup e +
          tally (JavaThread.carries e) (Function.update s.thread i (after r.1)) + s.held e = _
        omega
      · intro attId evs new modify heq
        rcases hafter with ⟨attId', new', modify', hclient, heq'⟩ | ⟨-, heq'⟩
        · obtain ⟨rfl, -⟩ := JavaThread.got.inj (heq'.symm.trans heq)
          exact hclient
        · cases heq'.symm.trans heq
      · intro attId evs heq
        rcases hafter with ⟨attId', new', modify', -, heq'⟩ | ⟨-, heq'⟩ <;>
          cases heq'.symm.trans heq

/-- New events are taken for an attachment of the client, or none are taken. -/
theorem Inv.takeNew (h : s.Inv setup) {i : ι} (hi : s.thread i = .idle) {attId : ℕ}
    {call : JavaGet} {async : Bool}
    (hsound : setup.client attId = some i ∨ async = false ∨
      ∀ r, call.take s.hdr (s.stat 0).input = some r → r.1 = []) :
    (s.takeNew setup i attId call async).Inv setup := by
  unfold JavaServer.takeNew
  split
  case isTrue hclient =>
    exact h.takeFrom hi setup.chain.zero_mem_ids fun r _ => .inl ⟨attId, true, true, hclient, rfl⟩
  case isFalse hclient =>
    split
    case isTrue hasync =>
      refine h.takeFrom hi setup.chain.zero_mem_ids fun r hr => .inr ⟨?_, rfl⟩
      rcases hsound with hc | ha | hnone
      · exact absurd hc hclient
      · exact absurd (hasync.symm.trans ha) nofun
      · exact hnone r hr
    case isFalse => exact h.setThread (fun e => by rw [hi]; rfl) (.inr rfl)

/-- **Events that an attachment holds are released**, and the thread carries them. -/
theorem Inv.release (h : s.Inv setup) {i : ι} (hi : ∀ e, (s.thread i).carries e = 0)
    {attId : ℕ} {evs : List ℕ} (hclient : setup.client attId = some i) (hnodup : evs.Nodup)
    (howned : ∀ e ∈ evs, s.owner e = some attId) {t : JavaThread}
    (ht : t = .put attId evs ∨ t = .dump attId evs) :
    ((s.release evs).setThread i t).Inv setup := by
  have hcarries : ∀ e, t.carries e = evs.count e := fun e => by
    rcases ht with rfl | rfl <;> rfl
  refine h.frame (fun e => ?_) h.lastHigh rfl ?_ ?_ fun j hj attId' evs' hj' e he => ?_
  · have hcarried := carried_update (s := s) i t e
    rw [hcarries, hi] at hcarried
    have hheld : ((s.release evs).setThread i t).held e + evs.count e = s.held e := by
      change (if (setOwner s.owner evs none e).isSome then 1 else 0) + evs.count e =
        if (s.owner e).isSome then 1 else 0
      unfold setOwner
      by_cases he : e ∈ evs
      · simp [he, howned e he, List.count_eq_one_of_mem hnodup he]
      · simp [he, List.count_eq_zero_of_not_mem he]
    change s.listed setup e + s.conducted setup e +
      tally (JavaThread.carries e) (Function.update s.thread i t) +
        ((s.release evs).setThread i t).held e = _
    omega
  · rintro attId evs new modify rfl
    rcases ht with ht | ht <;> cases ht
  · rintro attId evs rfl
    rcases ht with ht | ht <;> cases ht
  · -- the events of another client's answer belong to its own attachment
    obtain ⟨hclient', -, howned'⟩ := h.answered j attId' evs' hj'
    have hnot : e ∉ evs := fun hin => by
      have hsame : attId = attId' :=
        Option.some.inj ((howned e hin).symm.trans (howned' e he))
      rw [hsame, hclient'] at hclient
      exact hj (Option.some.inj hclient)
    exact if_neg hnot

theorem Inv.beginPut (h : s.Inv setup) {i : ι} (hi : ∀ e, (s.thread i).carries e = 0) {attId : ℕ}
    {evs : List ℕ} (hnames : s.Names setup i attId evs) :
    (s.beginPut setup i attId evs).Inv setup := by
  unfold JavaServer.beginPut
  split
  case isTrue => exact h.setThread hi (.inl rfl)
  case isFalse hne =>
    obtain ⟨e, he⟩ := List.exists_mem_of_ne_nil evs hne
    have hclient := (hnames.2 e he).2
    dsimp only
    rw [if_pos hclient]
    exact (h.setHdr (updateAll s.hdr evs fun h => { h with age := .used })).release hi hclient
      hnames.1 (fun e he => (hnames.2 e he).1) (.inl rfl)

/-- **A command keeps the invariant.** -/
theorem Inv.command (h : s.Inv setup) {i : ι} (hi : s.thread i = .idle) {c : JavaCommand}
    (hsound : (JavaServerAct.command i c).Sound setup s) : (s.command setup i c).Inv setup := by
  have hnone : ∀ e, (s.thread i).carries e = 0 := fun e => by rw [hi]; rfl
  cases c with
  | evsGet attId quantity modify =>
      rw [JavaServer.command]
      split
      case isTrue hclient =>
        exact h.takeFrom hi (setup.station_mem attId) fun r _ =>
          .inl ⟨attId, false, modify, hclient, rfl⟩
      case isFalse => exact h.setThread hnone (.inr rfl)
  | evsNew attId quantity async => exact h.takeNew hi hsound
  | evsNewGrp attId quantity group async =>
      rw [JavaServer.command]
      split
      case isTrue => exact h
      case isFalse => exact h.takeNew hi (.inr (.inl rfl))
  | evsPut attId events =>
      rw [JavaServer.command]
      split
      · exact (h.setHdr (readEvents setup.numEvents events s.hdr).1).beginPut hnone hsound
      · exact (h.setHdr (readEvents setup.numEvents events s.hdr).1).setThread hnone (.inr rfl)
  | evsDump attId ids =>
      rw [JavaServer.command]
      split
      · split
        case isTrue => exact h
        case isFalse hne =>
          obtain ⟨hnodup, hnames⟩ := hsound
          obtain ⟨e, he⟩ := List.exists_mem_of_ne_nil ids hne
          exact h.release hnone (hnames e he).2 hnodup (fun e he => (hnames e he).1) (.inr rfl)
      · exact h.setThread hnone (.inr rfl)

/-! ### Threads and conductors go on -/

/-- The attachment gets what the thread carries. -/
theorem Inv.own (h : s.Inv setup) {i : ι} {attId : ℕ} {evs : List ℕ} {new modify : Bool}
    (hi : s.thread i = .got attId evs new modify) : (s.proceed setup i).Inv setup := by
  have hclient := h.known i attId evs new modify hi
  have hcarries : ∀ e, (s.thread i).carries e = evs.count e := fun e => by rw [hi]; rfl
  have hnodup : evs.Nodup := by
    rw [List.nodup_iff_count_le_one]
    intro e
    rw [← hcarries]
    exact (h.carries i e).1
  have hfree : ∀ e ∈ evs, s.owner e = none := fun e he =>
    (h.carries i e).2 (by rw [hcarries, List.count_eq_one_of_mem hnodup he])
  have hproceed : s.proceed setup i = { s with
      owner := setOwner s.owner evs (some attId)
      hdr := if new then updateAll s.hdr evs EventHeader.newEvent else s.hdr }.setThread i
        (if modify then .idle else .answered attId evs) := by
    unfold JavaServer.proceed
    rw [hi]
  rw [hproceed]
  refine h.frame (fun e => ?_) h.lastHigh rfl ?_ ?_ fun j hj attId' evs' hj' e he => ?_
  · have hcarried := carried_update (s := s) i
      (if modify then .idle else .answered attId evs) e
    have hnone : (if modify then JavaThread.idle else .answered attId evs).carries e = 0 := by
      cases modify <;> rfl
    rw [hcarries, hnone] at hcarried
    have hheld : (if (setOwner s.owner evs (some attId) e).isSome then 1 else 0) =
        s.held e + evs.count e := by
      unfold setOwner held
      by_cases he : e ∈ evs
      · simp [he, hfree e he, List.count_eq_one_of_mem hnodup he]
      · simp [he, List.count_eq_zero_of_not_mem he]
    change s.listed setup e + s.conducted setup e +
      tally (JavaThread.carries e) (Function.update s.thread i
        (if modify then .idle else .answered attId evs)) +
          (if (setOwner s.owner evs (some attId) e).isSome then 1 else 0) = _
    omega
  · intro attId' evs' new' modify' heq
    cases modify <;> cases heq
  · intro attId' evs' heq
    cases modify with
    | true => cases heq
    | false =>
        obtain ⟨rfl, rfl⟩ := JavaThread.answered.inj heq
        exact ⟨hclient, hnodup, fun e he => if_pos he⟩
  · have hnot : e ∉ evs := fun hin => by
      have howned := (h.answered j attId' evs' hj').2.2 e he
      exact absurd ((hfree e hin).symm.trans howned) nofun
    exact if_neg hnot

/-- Events come into the output list of the station. -/
theorem Inv.write (h : s.Inv setup) {i : ι} {attId : ℕ} {evs : List ℕ}
    (hi : s.thread i = .put attId evs) : (s.proceed setup i).Inv setup := by
  have hstat := setup.station_mem attId
  have hlast : (if s.output (setup.station attId) = [] then 0 else
      s.lastHigh (setup.station attId)) ≤ (s.output (setup.station attId)).length := by
    split
    · exact Nat.zero_le _
    case isFalse hne => exact (h.lastHigh _).resolve_left hne
  obtain ⟨hperm, hlength, hok⟩ := putLoop_perm s.hdr hlast evs
  unfold JavaServer.proceed
  rw [hi]
  dsimp only
  rw [hok, if_pos rfl]
  refine h.frame (fun e => ?_) (fun t => ?_) rfl nofun nofun fun _ _ _ _ _ _ _ => rfl
  · have hlisted := sum_output (s := s) hstat
      (putLoop s.hdr (if s.output (setup.station attId) = [] then 0 else
        s.lastHigh (setup.station attId)) (s.output (setup.station attId)) evs).2.1 e
    have hcount := hperm.count_eq e
    have hcarried := carried_update (s := s) i .idle e
    have hcarries : (s.thread i).carries e = evs.count e := by rw [hi]; rfl
    have hnone : JavaThread.idle.carries e = 0 := rfl
    rw [List.count_append] at hcount
    change ∑ t ∈ setup.chain.ids, ((s.stat t).input.count e + (Function.update s.output
      (setup.station attId) _ t).count e) + s.conducted setup e +
        tally (JavaThread.carries e) (Function.update s.thread i .idle) + s.held e = _
    omega
  · change Function.update s.output _ _ t = [] ∨ Function.update s.lastHigh _ _ t ≤
      (Function.update s.output _ _ t).length
    rcases eq_or_ne t (setup.station attId) with rfl | ht
    · simp only [Function.update_self]
      exact .inr hlength
    · simp only [Function.update_of_ne ht]
      exact h.lastHigh t

/-- Events come into the input list of GRAND_CENTRAL. -/
theorem Inv.dump (h : s.Inv setup) {i : ι} {attId : ℕ} {evs : List ℕ}
    (hi : s.thread i = .dump attId evs) : (s.proceed setup i).Inv setup := by
  unfold JavaServer.proceed
  rw [hi]
  dsimp only
  have hnone : ∀ e, (if setup.client attId = some i then JavaThread.idle else .dead).carries e =
      0 := fun e => by split <;> rfl
  refine h.frame (fun e => ?_) h.lastHigh rfl (fun _ _ _ _ heq => ?_) (fun _ _ heq => ?_)
    fun _ _ _ _ _ _ _ => rfl
  · have hlisted := listed_setInput (s := s) setup.chain.zero_mem_ids
      ((s.stat 0).input ++ evs) e
    have hcarried := carried_update (s := s) i
      (if setup.client attId = some i then .idle else .dead) e
    have hcarries : (s.thread i).carries e = evs.count e := by rw [hi]; rfl
    rw [List.count_append] at hlisted
    rw [hnone] at hcarried
    change (s.setInput 0 _).listed setup e + s.conducted setup e +
      tally (JavaThread.carries e) (Function.update s.thread i _) + s.held e = _
    omega
  · split at heq <;> cases heq
  · split at heq <;> cases heq

theorem Inv.proceed (h : s.Inv setup) (i : ι) : (s.proceed setup i).Inv setup := by
  cases hi : s.thread i with
  | idle | dead =>
      unfold JavaServer.proceed
      rw [hi]
      exact h
  | got attId evs new modify => exact h.own hi
  | answered attId evs =>
      obtain ⟨hclient, hnodup, howned⟩ := h.answered i attId evs hi
      unfold JavaServer.proceed
      rw [hi]
      exact h.beginPut (fun e => by rw [hi]; rfl)
        ⟨hnodup, fun e he => ⟨howned e he, hclient⟩⟩
  | put attId evs => exact h.write hi
  | dump attId evs => exact h.dump hi

/-- A conductor that comes through puts what it has into the input lists. -/
theorem Inv.conduct (h : s.Inv setup) {self : ℕ} (hself : self ∈ setup.chain.ids)
    (hsound : (JavaServerAct.conduct self : JavaServerAct ι).Sound setup s) :
    (s.conduct setup self).Inv setup := by
  obtain ⟨slots, hfollowing, hsub⟩ := JavaChain.exists_following hself
  unfold JavaServer.conduct
  split
  case h_1 => exact h
  case h_2 getList hbatch =>
    have hnodup := setup.chain.nodup.sublist hsub
    have hfits := hsound slots hfollowing getList hbatch
    obtain ⟨stat', hpass⟩ := conduct_of_fits hnodup hfits
    have hrun : setup.chain.run s.hdr (setup.select s.hdr) setup.stationsMax self s.stat getList =
        some stat' := by
      rw [JavaChain.run, hfollowing]
      exact hpass
    rw [hrun]
    refine ⟨fun e => ?_, h.lastHigh, h.known, h.answered⟩
    have hinput := conduct_sum hnodup (S := setup.chain.ids)
      (fun t ht => JavaChain.mem_ids.mpr (.inr (hsub.subset ht))) setup.chain.zero_mem_ids hfits
      hpass e
    have hget := sum_getList (s := s) hself (some []) e
    rw [hbatch, Option.getD_some, Option.getD_some, List.count_nil] at hget
    have honce := h.once e
    unfold listed at honce
    rw [Finset.sum_add_distrib] at honce
    change ∑ t ∈ setup.chain.ids, ((stat' t).input.count e + (s.output t).count e) +
      ∑ t ∈ setup.chain.ids, ((Function.update s.getList self (some []) t).getD []).count e +
        s.carried e + s.held e = _
    rw [Finset.sum_add_distrib, ← honce]
    omega

omit [DecidableEq ι] in
/-- In a new system all events are in one list. -/
theorem inv_of_start (h : s.Start setup) : s.Inv setup := by
  refine ⟨fun e => ?_, fun t => .inl (h.output t), fun i _ _ _ _ hi => ?_, fun i _ _ hi => ?_⟩
  · have hlisted : s.listed setup e = (List.range setup.numEvents).count e := by
      unfold listed
      rw [Finset.sum_eq_single_of_mem 0 setup.chain.zero_mem_ids fun t _ ht => by
        rw [h.input t ht, h.output t, List.count_nil, Nat.add_zero], h.grandCentral, h.output, List.count_nil,
        Nat.add_zero]
    have hconducted : s.conducted setup e = 0 :=
      Finset.sum_eq_zero fun t _ => by rw [h.getList t]; rfl
    have hcarried : s.carried e = 0 := Finset.sum_eq_zero fun i _ => by rw [h.thread i]; rfl
    have hheld : s.held e = 0 := by
      unfold held
      rw [h.owner]
      rfl
    rw [hlisted, hconducted, hcarried, hheld, List.nodup_range.count]
    simp
  · cases (h.thread i).symm.trans hi
  · cases (h.thread i).symm.trans hi

end JavaServer

/-- A system with GRAND_CENTRAL and two events, and a client with an attachment to it. -/
def oneAttached : JavaSetup (Fin 1) where
  chain := ⟨[], by decide, by decide⟩
  stationsMax := 10
  numEvents := 2
  client attId := if attId = 0 then some 0 else none
  station _ := 0
  select _ _ _ := true
  station_mem _ := JavaChain.zero_mem_ids _

/-- All events are in GRAND_CENTRAL's input list. -/
def newServer : JavaServer (Fin 1) where
  hdr _ := .init
  owner _ := none
  stat t := { aliveStation .all with input := if t = 0 then [0, 1] else [] }
  output _ := []
  lastHigh _ := 0
  getList _ := some []
  thread _ := .idle

theorem newServer_start : newServer.Start oneAttached :=
  ⟨rfl, fun _ ht => if_neg ht, fun _ => rfl, fun _ => rfl, fun _ => rfl, fun _ => rfl⟩

/-- The message of a put of event `0`. -/
def putZero : EvPut := ⟨0, 4, .low, .ok, List.replicate 6 0⟩

end EventTransfer
