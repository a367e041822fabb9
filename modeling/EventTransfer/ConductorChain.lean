import EventTransfer.ConductorRotation

/-!
# A chain of stations that take events

Where no group behind a conductor's station deals out events, each active station takes what it
accepts of the events that the stations before it have left, and GRAND_CENTRAL gets the others.
A blocking station accepts every event that it selects, or every `prescale`-th of them, counted
from batch to batch; a nonblocking station accepts what it selects as long as its cue has room,
and pays no attention to its prescale.

`Delivers` says what a pass leaves behind, in these terms, and `conductor_delivers` that every
pass does.  The counting from batch to batch is a run of passes (`PrescaleRun`).
-/

namespace EventTransfer

/-! ### What a station accepts -/

section Accepted

variable {n k i : ℕ} {p : ℕ → Bool} {batch taken left : List ℕ}

@[simp] theorem turns_nil (n k i : ℕ) : turns n k i [] = [] := rfl

theorem turns_cons (n k i e : ℕ) (xs : List ℕ) :
    turns n k i (e :: xs) = (if k % n = i then [e] else []) ++ turns n (k + 1) i xs := by
  unfold turns
  rw [List.length_cons, List.range_succ_eq_map, List.filter_cons, List.filter_map]
  have hrest : ((List.range xs.length).filter
      ((fun j => decide ((k + j) % n = i)) ∘ Nat.succ)).map Nat.succ =
      ((List.range xs.length).filter fun j => (k + 1 + j) % n = i).map Nat.succ := by
    congr 1
    refine List.filter_congr fun j _ => ?_
    rw [Function.comp_apply, decide_eq_decide, show k + j.succ = k + 1 + j by omega]
  rw [hrest]
  by_cases hk : k % n = i
  · simp [hk, List.filterMap_map]
  · simp [hk, List.filterMap_map]

theorem turns_append (n k i : ℕ) (xs ys : List ℕ) :
    turns n k i (xs ++ ys) = turns n k i xs ++ turns n (k + xs.length) i ys := by
  induction xs generalizing k with
  | nil => rfl
  | cons e xs ih =>
      rw [List.cons_append, turns_cons, turns_cons, ih, List.append_assoc, List.length_cons,
        show k + 1 + xs.length = k + (xs.length + 1) by omega]

/-- Of one station all turns are its own. -/
theorem turns_one (k : ℕ) (xs : List ℕ) : turns 1 k 0 xs = xs := by
  induction xs generalizing k with
  | nil => rfl
  | cons e xs ih =>
      rw [turns_cons, if_pos (Nat.mod_one k), ih]
      rfl

/-- **Every `prescale`-th** of the events that are selected. -/
theorem prescaled_fst (p : ℕ → Bool) (prescale eventsTry : ℕ) (xs : List ℕ) :
    (prescaled p prescale eventsTry xs).1 = turns prescale eventsTry 0 (xs.filter p) ∧
      (prescaled p prescale eventsTry xs).2.2 = eventsTry + (xs.filter p).length := by
  induction xs generalizing eventsTry with
  | nil => exact ⟨rfl, rfl⟩
  | cons e xs ih =>
      obtain ⟨htaken, htry⟩ := ih (eventsTry + 1)
      obtain ⟨htaken', htry'⟩ := ih eventsTry
      unfold prescaled
      by_cases hp : p e = true
      · rw [if_pos hp, List.filter_cons_of_pos hp, turns_cons, List.length_cons]
        dsimp only
        split
        case isTrue hk => exact ⟨by rw [htaken]; rfl, by rw [htry]; omega⟩
        case isFalse hk => exact ⟨by rw [htaken]; rfl, by rw [htry]; omega⟩
      · rw [if_neg hp, List.filter_cons_of_neg hp]
        exact ⟨htaken', htry'⟩

/-- The loop with the prescale goes through the events that have not been put. -/
theorem takePrescaled_eq (p : ℕ → Bool) (prescale eventsTry : ℕ) (batch : Batch) :
    (takePrescaled p prescale eventsTry batch).1 =
        (prescaled p prescale eventsTry (unput batch)).1 ∧
      unput (takePrescaled p prescale eventsTry batch).2.1 =
        (prescaled p prescale eventsTry (unput batch)).2.1 ∧
      (takePrescaled p prescale eventsTry batch).2.2 =
        (prescaled p prescale eventsTry (unput batch)).2.2 := by
  induction batch generalizing eventsTry with
  | nil => exact ⟨rfl, rfl, rfl⟩
  | cons x batch ih =>
      obtain ⟨event, put⟩ := x
      obtain ⟨htaken, hleft, htry⟩ := ih (eventsTry + 1)
      obtain ⟨htaken', hleft', htry'⟩ := ih eventsTry
      unfold takePrescaled
      cases put with
      | true => simpa using ⟨htaken', hleft', htry'⟩
      | false =>
          rw [unput_cons_false]
          unfold prescaled
          by_cases hp : p event
          · by_cases hk : eventsTry % prescale = 0
            · simp [hp, hk, htaken, hleft, htry]
            · simp [hp, hk, htaken, hleft, htry]
          · simp [hp, htaken', hleft', htry']

/-- What is left are the events that have not been taken. -/
theorem Splits.left_eq (h : Splits batch taken left) (hnodup : batch.Nodup) :
    left = batch.filter (· ∉ taken) := by
  have hsplit : (taken ++ left).Nodup := h.perm.nodup_iff.mpr hnodup
  have hdisjoint : ∀ e ∈ left, e ∉ taken := fun e he ht =>
    (List.nodup_append.mp hsplit).2.2 e ht e he rfl
  have hsub : left.Sublist (batch.filter (· ∉ taken)) := by
    have := h.left.filter (· ∉ taken)
    rwa [List.filter_eq_self.mpr fun e he => decide_eq_true (hdisjoint e he)] at this
  refine hsub.eq_of_length_le ?_
  refine (List.subperm_of_subset (hnodup.filter _) fun e he => ?_).length_le
  obtain ⟨he, hnot⟩ := List.mem_filter.mp he
  rcases List.mem_append.mp (h.perm.mem_iff.mpr he) with ht | hl
  · exact absurd ht (of_decide_eq_true hnot)
  · exact hl

end Accepted

/-- The selection method of a station. -/
def Stations.selects (s : Stations) (select : ℕ → ℕ → Bool) (ps : ℕ) : ℕ → Bool :=
  if (s.config ps).selectMode = .all then fun _ => true else select ps

section Accept

variable (s : Stations) (select : ℕ → ℕ → Bool)

/-- **The events that a station accepts** of those that are left for it, when its input list has
`cnt` events and `eventsTry` have been tried before. -/
def Stations.accepted (ps cnt eventsTry : ℕ) (left : List ℕ) : List ℕ :=
  match (s.config ps).blockMode with
  | .blocking =>
      turns (s.config ps).prescale.toNat eventsTry 0 (left.filter (s.selects select ps))
  | .nonblocking => (left.filter (s.selects select ps)).take ((s.config ps).cue - cnt).toNat

/-- The events it counts as tried: those it selects, if it is blocking. -/
def Stations.tried (ps : ℕ) (left : List ℕ) : ℕ :=
  match (s.config ps).blockMode with
  | .blocking => (left.filter (s.selects select ps)).length
  | .nonblocking => 0

variable {s select}

@[simp] theorem accepted_nil (ps cnt eventsTry : ℕ) :
    s.accepted select ps cnt eventsTry [] = [] := by
  unfold Stations.accepted
  split
  · rfl
  · exact List.take_nil

@[simp] theorem tried_nil (ps : ℕ) : s.tried select ps [] = 0 := by
  unfold Stations.tried
  split
  · rfl
  · rfl

end Accept

/-! ### One station -/

/-- The events that are left in a pass. -/
def Pass.left (w : Pass) : List ℕ := if w.eventsLeft = 0 then [] else unput w.batch

/-- **What a pass keeps of the batch**: `events_left` is the number of events that are left, and
before anything has been put all marks are clear. -/
structure Pass.Ok (w : Pass) : Prop where
  count : w.eventsLeft = w.left.length
  fresh : w.firstimethruloop = true → ∀ x ∈ w.batch, x.2 = false
  nodup : w.left.Nodup

/-- What is known of the pass when one station has taken its events. -/
structure Pass.Took (w : Pass) (select : ℕ → ℕ → Bool) (ps : ℕ) (r : List ℕ × Pass) : Prop where
  accepted : r.1 = w.stations.accepted select ps (w.listIn ps).length (w.eventsTry ps) w.left
  stations : r.2.stations = w.stations
  listIn : r.2.listIn = w.listIn
  ntemps : r.2.ntemps = w.ntemps
  eventsTry : r.2.eventsTry =
    Function.update w.eventsTry ps (w.eventsTry ps + w.stations.tried select ps w.left)
  split : Splits w.left r.1 r.2.left
  count : r.2.eventsLeft = r.2.left.length

section Take

variable {w : Pass} {select : ℕ → ℕ → Bool} {ps : ℕ}

theorem Pass.left_eq (hleft : w.eventsLeft ≠ 0) : w.left = unput w.batch := if_neg hleft

/-- The count that goes with a batch of which some events have been taken. -/
theorem left_of_splits {taken left : List ℕ} {u : Pass} (hok : w.Ok)
    (hsplit : Splits w.left taken left) (hbatch : unput u.batch = left)
    (hcount : u.eventsLeft = w.eventsLeft - taken.length) :
    Splits w.left taken u.left ∧ u.eventsLeft = u.left.length := by
  have hlen := hsplit.perm.length_eq
  rw [List.length_append] at hlen
  have hleft : u.eventsLeft = left.length := by
    rw [hcount, hok.count]
    omega
  have heq : u.left = left := by
    unfold Pass.left
    split
    case isTrue h0 => exact (List.length_eq_zero_iff.mp (hleft ▸ h0)).symm
    case isFalse => exact hbatch
  exact ⟨heq ▸ hsplit, by rw [heq, hleft]⟩

/-- A blocking station, in its loop. -/
theorem took_prescaled {p : ℕ → Bool} (hok : w.Ok) (hleft : w.eventsLeft ≠ 0)
    (hblock : (w.stations.config ps).blockMode = .blocking)
    (hp : w.stations.selects select ps = p) :
    w.Took select ps
      ((takePrescaled p (w.stations.config ps).prescale.toNat (w.eventsTry ps) w.batch).1,
        { w with
          batch := (takePrescaled p (w.stations.config ps).prescale.toNat (w.eventsTry ps)
            w.batch).2.1
          eventsTry := Function.update w.eventsTry ps (takePrescaled p
            (w.stations.config ps).prescale.toNat (w.eventsTry ps) w.batch).2.2
          eventsLeft := w.eventsLeft - (takePrescaled p
            (w.stations.config ps).prescale.toNat (w.eventsTry ps) w.batch).1.length }) := by
  obtain ⟨htaken, hrest, htry⟩ := takePrescaled_eq p (w.stations.config ps).prescale.toNat
    (w.eventsTry ps) w.batch
  rw [← Pass.left_eq hleft] at htaken hrest htry
  obtain ⟨hfst, hcount⟩ := prescaled_fst p (w.stations.config ps).prescale.toNat
    (w.eventsTry ps) w.left
  have hsplit := splits_prescaled p (w.stations.config ps).prescale.toNat (w.eventsTry ps) w.left
  rw [← htaken] at hsplit
  obtain ⟨hl, hc⟩ := left_of_splits (u := { w with
      batch := (takePrescaled p (w.stations.config ps).prescale.toNat (w.eventsTry ps)
        w.batch).2.1
      eventsTry := Function.update w.eventsTry ps (takePrescaled p
        (w.stations.config ps).prescale.toNat (w.eventsTry ps) w.batch).2.2
      eventsLeft := w.eventsLeft - (takePrescaled p
        (w.stations.config ps).prescale.toNat (w.eventsTry ps) w.batch).1.length })
    hok hsplit hrest rfl
  refine ⟨?_, rfl, rfl, rfl, ?_, hl, hc⟩
  · unfold Stations.accepted
    rw [hblock, hp]
    exact htaken.trans hfst
  · unfold Stations.tried
    rw [hblock, hp, htry, hcount]

/-- A nonblocking station. -/
theorem took_room {p : ℕ → Bool} (hok : w.Ok) (hleft : w.eventsLeft ≠ 0)
    (hblock : (w.stations.config ps).blockMode = .nonblocking)
    (hp : w.stations.selects select ps = p) :
    w.Took select ps (w.takeRoom p ps) := by
  unfold Pass.takeRoom
  dsimp only
  generalize hroom : ((w.stations.config ps).cue - (w.listIn ps).length).toNat = room
  obtain ⟨htaken, hrest, -⟩ := takeUnput_eq p room w.batch
  rw [← Pass.left_eq hleft] at htaken hrest
  have hsplit := splits_takeWhere p room w.left
  rw [← htaken] at hsplit
  obtain ⟨hl, hc⟩ := left_of_splits (u := { w with
      batch := (takeUnput p room w.batch).2
      eventsLeft := w.eventsLeft - (takeUnput p room w.batch).1.length })
    hok hsplit hrest rfl
  refine ⟨?_, rfl, rfl, rfl, ?_, hl, hc⟩
  · unfold Stations.accepted
    rw [hblock, hp, hroom]
    exact htaken.trans (takeWhere_fst p room w.left)
  · unfold Stations.tried
    rw [hblock]
    exact (Function.update_eq_self ps w.eventsTry).symm

/-- A blocking station that takes all events. -/
theorem took_all (hok : w.Ok) (hleft : w.eventsLeft ≠ 0)
    (hblock : (w.stations.config ps).blockMode = .blocking)
    (hmode : (w.stations.config ps).selectMode = .all) : w.Took select ps (w.takeAll ps) := by
  have hp : w.stations.selects select ps = fun _ => true := if_pos hmode
  unfold Pass.takeAll
  dsimp only
  split
  case isTrue hfast =>
    -- everything at once
    have hall : w.left = w.batch.map Prod.fst := by
      rw [Pass.left_eq hleft, unput_eq_map (hok.fresh hfast.1)]
    have hfilter : w.left.filter (fun _ => true) = w.left :=
      List.filter_eq_self.mpr fun _ _ => rfl
    refine ⟨?_, rfl, rfl, rfl, ?_, ?_, rfl⟩
    · unfold Stations.accepted
      rw [hblock, hp, hfast.2, hfilter, turns_one, hall]
    · unfold Stations.tried
      rw [hblock, hp, hfilter, hall, List.length_map]
    · dsimp only
      rw [← hall]
      exact ⟨.of_eq (List.append_nil _), .refl _, List.nil_sublist _⟩
  case isFalse => exact took_prescaled hok hleft hblock hp

variable (select) in
/-- **One station takes what it accepts.** -/
theorem Pass.took_take (hok : w.Ok) (hleft : w.eventsLeft ≠ 0) (ps : ℕ) :
    w.Took select ps (w.take select ps) := by
  unfold Pass.take
  split
  case h_1 hblock hmode => exact took_all hok hleft hblock hmode
  case h_2 hblock hmode => exact took_room hok hleft hblock (if_pos hmode)
  case h_3 hblock hmode => exact took_prescaled hok hleft hblock (if_neg hmode)
  case h_4 hblock hmode => exact took_room hok hleft hblock (if_neg hmode)

end Take

/-! ### One station after another -/

/-- **A part of a pass**, in which the stations `targets` take what they accept, one after
another: what they are `given`. -/
structure Feeds (hdr : ℕ → EventHeader) (select : ℕ → ℕ → Bool) (targets : List ℕ) (w u : Pass)
    (given : ℕ → List ℕ) : Prop where
  stations : u.stations = w.stations
  ntemps : u.ntemps = w.ntemps
  accepts : ∀ before ps after, targets = before ++ ps :: after →
    given ps = w.stations.accepted select ps (w.listIn ps).length (w.eventsTry ps)
      (w.left.filter (· ∉ before.flatMap given))
  tried : ∀ before ps after, targets = before ++ ps :: after →
    u.eventsTry ps =
      w.eventsTry ps + w.stations.tried select ps (w.left.filter (· ∉ before.flatMap given))
  only : ∀ ps, ps ∉ targets → given ps = [] ∧ u.eventsTry ps = w.eventsTry ps
  lists : ∀ ps, u.listIn ps = llistWrite (isHigh hdr) (w.listIn ps) (given ps)
  left : u.left = w.left.filter (· ∉ targets.flatMap given)
  perm : (targets.flatMap given ++ u.left).Perm w.left

section Feeds

variable {hdr : ℕ → EventHeader} {select : ℕ → ℕ → Bool} {targets targets₁ targets₂ : List ℕ}
  {w u v : Pass} {given₁ given₂ : ℕ → List ℕ} {nevents : ℕ}

/-- Nothing is left, or nobody takes anything. -/
theorem feeds_nothing (h : w.left = [] ∨ targets = []) :
    Feeds hdr select targets w w fun _ => [] := by
  refine ⟨rfl, rfl, fun before ps after hsplit => ?_, fun before ps after hsplit => ?_,
    fun _ _ => ⟨rfl, rfl⟩, fun _ => rfl, ?_, ?_⟩
  · rcases h with h | h
    · rw [h, List.filter_nil, accepted_nil]
    · rw [h] at hsplit
      simp at hsplit
  · rcases h with h | h
    · rw [h, List.filter_nil, tried_nil, Nat.add_zero]
    · rw [h] at hsplit
      simp at hsplit
  · refine (List.filter_eq_self.mpr fun e _ => decide_eq_true ?_).symm
    simp
  · rw [List.flatMap_eq_nil_iff.mpr fun _ _ => rfl, List.nil_append]

/-- The marks and the flag `firstimethruloop` are not looked at any more. -/
theorem Feeds.congr_left {w' : Pass} (h : Feeds hdr select targets w' u given₁)
    (hw : w' = { w with firstimethruloop := false }) : Feeds hdr select targets w u given₁ := by
  subst hw
  exact ⟨h.stations, h.ntemps, h.accepts, h.tried, h.only, h.lists, h.left, h.perm⟩

variable (hdr select nevents) in
/-- **One station.** -/
theorem feeds_serve (hok : w.Ok) (hleft : w.eventsLeft ≠ 0)
    (hroom : ∀ ps, (w.listIn ps).length + w.left.length ≤ nevents) (ps : ℕ) :
    ∃ u given, w.serve hdr nevents select ps = some u ∧ Feeds hdr select [ps] w u given ∧
      ({ u with firstimethruloop := false } : Pass).Ok ∧
      ∀ q, (u.listIn q).length + u.left.length ≤ nevents := by
  obtain ⟨haccepted, hstations, hlistIn, hntemps, heventsTry, hsplit, hcount⟩ :=
    w.took_take select hok hleft ps
  unfold Pass.serve
  generalize w.take select ps = r at *
  have hlen := hsplit.perm.length_eq
  rw [List.length_append] at hlen
  set given : ℕ → List ℕ := Function.update (fun _ => []) ps r.1 with hgiven
  have hone : [ps].flatMap given = r.1 := by simp [hgiven]
  -- what is known whether or not something is written
  have hfeeds : ∀ u : Pass, u.stations = r.2.stations → u.ntemps = r.2.ntemps →
      u.eventsTry = r.2.eventsTry → u.left = r.2.left →
      (∀ q, u.listIn q = llistWrite (isHigh hdr) (w.listIn q) (given q)) →
        Feeds hdr select [ps] w u given := by
    intro u hs hn ht hl hlists
    have hfirst : ∀ before q after, [ps] = before ++ q :: after → before = [] ∧ q = ps := by
      intro before q after h
      cases before with
      | nil =>
          rw [List.nil_append, List.cons.injEq] at h
          exact ⟨rfl, h.1.symm⟩
      | cons b before => simp at h
    have hnot : w.left.filter (· ∉ [].flatMap given) = w.left :=
      List.filter_eq_self.mpr fun e _ => decide_eq_true (by simp)
    refine ⟨hs.trans hstations, hn.trans hntemps, fun before q after h => ?_,
      fun before q after h => ?_, fun q hq => ?_, hlists, ?_, ?_⟩
    · obtain ⟨rfl, rfl⟩ := hfirst before q after h
      rw [hnot, hgiven, Function.update_self, haccepted]
    · obtain ⟨rfl, rfl⟩ := hfirst before q after h
      rw [hnot, ht, heventsTry, Function.update_self]
    · rw [List.mem_singleton] at hq
      rw [ht, heventsTry, hgiven, Function.update_of_ne hq, Function.update_of_ne hq]
      exact ⟨rfl, rfl⟩
    · rw [hl, hone]
      exact hsplit.left_eq hok.nodup
    · rw [hl, hone]
      exact hsplit.perm
  have hok' : ∀ u : Pass, u.eventsLeft = r.2.eventsLeft → u.left = r.2.left →
      ({ u with firstimethruloop := false } : Pass).Ok := by
    intro u he hl
    refine ⟨?_, nofun, ?_⟩
    · change u.eventsLeft = u.left.length
      rw [he, hl, hcount]
    · change u.left.Nodup
      rw [hl]
      exact hsplit.left.nodup hok.nodup
  dsimp only
  by_cases hnil : r.1 = []
  case pos =>
    rw [if_pos hnil]
    -- nothing is accepted, and nothing is written
    refine ⟨r.2, given, rfl, hfeeds r.2 rfl rfl rfl rfl fun q => ?_, hok' r.2 rfl rfl, fun q => ?_⟩
    · rw [hlistIn, hgiven, hnil, Function.update_eq_self_iff.mpr rfl, llistWrite_nil]
    · have := hroom q
      rw [hlistIn]
      omega
  case neg =>
    rw [if_neg hnil]
    have hfits : r.1.length ≤ nevents - (r.2.listIn ps).length := by
      have := hroom ps
      rw [hlistIn]
      omega
    unfold Pass.write
    rw [if_pos hfits]
    refine ⟨_, given, rfl, hfeeds _ rfl rfl rfl rfl fun q => ?_, hok' _ rfl rfl, fun q => ?_⟩
    · dsimp only
      rw [hlistIn]
      rcases eq_or_ne q ps with rfl | hq
      · rw [Function.update_self, hgiven, Function.update_self]
      · rw [Function.update_of_ne hq, hgiven, Function.update_of_ne hq, llistWrite_nil]
    · have := hroom q
      change (Function.update r.2.listIn ps _ q).length + r.2.left.length ≤ nevents
      rw [hlistIn]
      rcases eq_or_ne q ps with rfl | hq
      · rw [Function.update_self, length_llistWrite]
        omega
      · rw [Function.update_of_ne hq]
        omega

/-- **Two parts, one after the other.** -/
theorem Feeds.trans (h₁ : Feeds hdr select targets₁ w u given₁)
    (h₂ : Feeds hdr select targets₂ u v given₂) (hd : targets₁.Disjoint targets₂) :
    Feeds hdr select (targets₁ ++ targets₂) w v fun ps => given₁ ps ++ given₂ ps := by
  have hfirst : ∀ ps ∈ targets₁, given₂ ps = [] := fun ps hps => (h₂.only ps (hd hps)).1
  have hsecond : ∀ ps ∈ targets₂, given₁ ps = [] := fun ps hps => (h₁.only ps (hd.symm hps)).1
  have hflat₁ : ∀ xs ⊆ targets₁, (xs.flatMap fun ps => given₁ ps ++ given₂ ps) =
      xs.flatMap given₁ := fun xs hxs => flatMap_congr_nil fun ps hps => hfirst ps (hxs hps)
  have hflat₂ : ∀ xs ⊆ targets₂, (xs.flatMap fun ps => given₁ ps ++ given₂ ps) =
      xs.flatMap given₂ := fun xs hxs => flatMap_nil_congr fun ps hps => hsecond ps (hxs hps)
  -- where a station of the two parts stands
  have hwhere : ∀ before ps after, targets₁ ++ targets₂ = before ++ ps :: after →
      (∃ after', targets₁ = before ++ ps :: after') ∨
        ∃ before', before = targets₁ ++ before' ∧ targets₂ = before' ++ ps :: after := by
    intro before ps after h
    rcases List.append_eq_append_iff.mp h with ⟨l, hl, hl'⟩ | ⟨l, hl, hl'⟩
    · exact .inr ⟨l, hl, hl'⟩
    · cases l with
      | nil =>
          rw [List.append_nil] at hl
          exact .inr ⟨[], by rw [hl, List.append_nil], hl'.symm⟩
      | cons a l =>
          rw [List.cons_append, List.cons.injEq] at hl'
          exact .inl ⟨l, by rw [hl, hl'.1]⟩
  have hleft : ∀ before' ⊆ targets₂, u.left.filter (· ∉ before'.flatMap given₂) =
      w.left.filter (· ∉ (targets₁ ++ before').flatMap fun ps => given₁ ps ++ given₂ ps) := by
    intro before' hsub
    rw [h₁.left, List.filter_filter, List.flatMap_append, hflat₁ _ (List.Subset.refl _),
      hflat₂ _ hsub]
    refine List.filter_congr fun e _ => ?_
    rw [← Bool.decide_and, decide_eq_decide, List.mem_append, not_or, and_comm]
  have hlists : ∀ ps ∈ targets₂, u.listIn ps = w.listIn ps := fun ps hps => by
    rw [h₁.lists, hsecond ps hps, llistWrite_nil]
  have htry : ∀ ps ∈ targets₂, u.eventsTry ps = w.eventsTry ps := fun ps hps =>
    (h₁.only ps (hd.symm hps)).2
  refine ⟨h₂.stations.trans h₁.stations, h₂.ntemps.trans h₁.ntemps,
    fun before ps after h => ?_, fun before ps after h => ?_, fun ps hps => ?_, fun ps => ?_, ?_,
    ?_⟩
  · rcases hwhere before ps after h with ⟨after', h₁'⟩ | ⟨before', rfl, h₂'⟩
    · have hmem : ps ∈ targets₁ := by simp [h₁']
      rw [hfirst ps hmem, List.append_nil, h₁.accepts before ps after' h₁', hflat₁]
      exact h₁' ▸ List.subset_append_left _ _
    · have hmem : ps ∈ targets₂ := by simp [h₂']
      rw [hsecond ps hmem, List.nil_append, h₂.accepts before' ps after h₂', h₁.stations,
        hlists ps hmem, htry ps hmem, hleft]
      exact h₂' ▸ List.subset_append_left _ _
  · rcases hwhere before ps after h with ⟨after', h₁'⟩ | ⟨before', rfl, h₂'⟩
    · have hmem : ps ∈ targets₁ := by simp [h₁']
      rw [(h₂.only ps (hd hmem)).2, h₁.tried before ps after' h₁', hflat₁]
      exact h₁' ▸ List.subset_append_left _ _
    · have hmem : ps ∈ targets₂ := by simp [h₂']
      rw [h₂.tried before' ps after h₂', h₁.stations, htry ps hmem, hleft]
      exact h₂' ▸ List.subset_append_left _ _
  · rw [List.mem_append, not_or] at hps
    obtain ⟨hg₁, ht₁⟩ := h₁.only ps hps.1
    obtain ⟨hg₂, ht₂⟩ := h₂.only ps hps.2
    exact ⟨by rw [hg₁, hg₂, List.nil_append], ht₂.trans ht₁⟩
  · rw [h₂.lists, h₁.lists]
    by_cases hps : ps ∈ targets₁
    · rw [hfirst ps hps, List.append_nil, llistWrite_nil]
    · rw [(h₁.only ps hps).1, llistWrite_nil, List.nil_append]
  · rw [h₂.left, hleft _ (List.Subset.refl _)]
  · rw [List.flatMap_append, hflat₁ _ (List.Subset.refl _), hflat₂ _ (List.Subset.refl _),
      List.append_assoc]
    exact (h₂.perm.append_left _).trans h₁.perm

variable (hdr select nevents) in
/-- The active stations of a list. -/
theorem feeds_serveAll (hnodup : targets.Nodup) (hok : w.Ok)
    (hroom : ∀ ps, (w.listIn ps).length + w.left.length ≤ nevents) :
    ∃ u given, Pass.serveAll hdr nevents select targets w = some u ∧
      Feeds hdr select targets w u given ∧ ({ u with firstimethruloop := false } : Pass).Ok ∧
      ∀ q, (u.listIn q).length + u.left.length ≤ nevents := by
  have hclear : ∀ w : Pass, w.Ok → ({ w with firstimethruloop := false } : Pass).Ok :=
    fun w h => ⟨h.count, nofun, h.nodup⟩
  induction targets generalizing w with
  | nil => exact ⟨w, _, rfl, feeds_nothing (.inr rfl), hclear w hok, hroom⟩
  | cons ps rest ih =>
      unfold Pass.serveAll
      split
      case isTrue hzero => exact ⟨w, _, rfl, feeds_nothing (.inl (if_pos hzero)), hclear w hok, hroom⟩
      case isFalse hleft =>
        obtain ⟨hps, hrest⟩ := List.nodup_cons.mp hnodup
        obtain ⟨u, given, hserve, hfeeds, hok', hroom'⟩ := feeds_serve hdr
          select nevents hok hleft hroom ps
        obtain ⟨v, given', hall, hfeeds', hok'', hroom''⟩ :=
          @ih { u with firstimethruloop := false } hrest hok' hroom'
        rw [hserve, Option.bind_some]
        have hd : [ps].Disjoint rest := by simpa using hps
        exact ⟨v, _, hall, hfeeds.trans (hfeeds'.congr_left rfl) hd, hok'', hroom''⟩

/-- The group does not deal out events. -/
def Stations.TakesEvents (s : Stations) (g : Group) : Prop :=
  ¬ (s.isParallel g.1 = true ∧ (s.config g.1).isSharing)

variable (hdr select nevents) in
/-- **The stops of a pass**: all active stations of the chain take what they accept, and then
it is GRAND_CENTRAL's turn if something is left. -/
theorem feeds_conduct {gs : List Group} (hnodup : (members gs).Nodup)
    (htakes : ∀ g ∈ gs, w.stations.TakesEvents g) (hok : w.Ok)
    (hroom : ∀ ps, (w.listIn ps).length + w.left.length ≤ nevents) :
    ∃ m given, Feeds hdr select (w.stations.actives (members gs)) w m given ∧ m.Ok ∧
      (∀ q, (m.listIn q).length + m.left.length ≤ nevents) ∧
      Pass.conduct hdr nevents select gs w =
        if m.eventsLeft = 0 then some m else m.finish hdr nevents := by
  induction gs generalizing w with
  | nil => exact ⟨w, _, feeds_nothing (.inr rfl), hok, hroom, rfl⟩
  | cons g gs ih =>
      by_cases hleft : w.eventsLeft = 0
      case pos =>
        refine ⟨w, _, feeds_nothing (.inl (if_pos hleft)), hok, hroom, ?_⟩
        unfold Pass.conduct
        rw [if_pos hleft, if_pos hleft]
      case neg =>
        have hsplit : members (g :: gs) = (g.1 :: g.2) ++ members gs := rfl
        rw [hsplit, List.nodup_append'] at hnodup
        obtain ⟨hg, hgs, hdisjoint⟩ := hnodup
        -- the stop at the group
        obtain ⟨u, given, hstop, hfeeds, hok', hroom'⟩ : ∃ u given,
            w.stop hdr nevents select g = some u ∧
              Feeds hdr select (w.stations.actives (g.1 :: g.2)) w u given ∧
              ({ u with firstimethruloop := false } : Pass).Ok ∧
              ∀ q, (u.listIn q).length + u.left.length ≤ nevents := by
          unfold Pass.stop
          dsimp only
          by_cases hnone : w.stations.actives (g.1 :: g.2) = []
          · rw [if_pos hnone]
            exact ⟨w, _, rfl, feeds_nothing (.inr hnone), ⟨hok.count, (fun h => by cases h), hok.nodup⟩, hroom⟩
          · rw [if_neg hnone, if_neg (htakes g List.mem_cons_self)]
            exact feeds_serveAll hdr select nevents (hg.filter _) hok hroom
        obtain ⟨m, given', hfeeds', hokm, hroomm, hrest⟩ :=
          @ih { u with firstimethruloop := false } hgs
            (fun k hk => by
              have := htakes k (List.mem_cons_of_mem g hk)
              rwa [← hfeeds.stations] at this)
            hok' hroom'
        have hd : (w.stations.actives (g.1 :: g.2)).Disjoint (w.stations.actives (members gs)) :=
          fun a ha hb => hdisjoint (List.mem_filter.mp ha).1 (List.mem_filter.mp hb).1
        have hactives : w.stations.actives (members (g :: gs)) =
            w.stations.actives (g.1 :: g.2) ++ w.stations.actives (members gs) := by
          rw [hsplit]
          exact List.filter_append ..
        have hsecond := hfeeds'.congr_left rfl
        dsimp only at hsecond
        rw [hfeeds.stations] at hsecond
        refine ⟨m, _, hactives ▸ hfeeds.trans hsecond hd, hokm, hroomm, ?_⟩
        conv_lhs => unfold Pass.conduct
        rw [if_neg hleft, hstop, Option.bind_some]
        exact hrest

/-- **GRAND_CENTRAL gets what is left.** -/
theorem finish_eq (hok : w.Ok) (hleft : w.eventsLeft ≠ 0)
    (hroom : (w.listIn 0).length + w.left.length ≤ nevents) :
    w.finish hdr nevents = some { w with
      listIn := Function.update w.listIn 0 (w.listIn 0 ++ w.left)
      ntemps := w.ntemps - (w.left.countP fun e => (hdr e).temp = .temp)
      eventsLeft := 0 } := by
  have hpe : (if w.firstimethruloop then w.batch.map Prod.fst else unput w.batch) = w.left := by
    rw [Pass.left_eq hleft]
    split
    case isTrue hf => exact (unput_eq_map (hok.fresh hf)).symm
    case isFalse => rfl
  have hne : w.left ≠ [] := fun h => hleft (by rw [hok.count, h]; rfl)
  unfold Pass.finish
  dsimp only
  rw [hpe, if_neg hne, if_pos (by omega)]

end Feeds

/-! ### The pass -/

/-- **A pass delivers its batch.**  Every event is given to exactly one station: the first that
accepts it of those that are active, in the order of the chain, and else GRAND_CENTRAL.  A list
keeps its old events, and the new ones are in it in the order of the batch; and a nonblocking
station that gets something does not end above its cue. -/
structure Delivers (hdr : ℕ → EventHeader) (select : ℕ → ℕ → Bool) (s : Stations)
    (targets batch : List ℕ) (listIn : ℕ → List ℕ) (eventsTry : ℕ → ℕ) (u : Pass)
    (given : ℕ → List ℕ) : Prop where
  perm : (targets.flatMap given ++ given 0).Perm batch
  accepts : ∀ before ps after, targets = before ++ ps :: after →
    given ps = s.accepted select ps (listIn ps).length (eventsTry ps)
      (batch.filter (· ∉ before.flatMap given))
  rest : given 0 = batch.filter (· ∉ targets.flatMap given)
  only : ∀ ps, ps ∉ targets → ps ≠ 0 → given ps = []
  lists : ∀ ps, ps ≠ 0 → u.listIn ps = llistWrite (isHigh hdr) (listIn ps) (given ps)
  grandCentral : u.listIn 0 = listIn 0 ++ given 0
  keeps : ∀ ps, (listIn ps).Sublist (u.listIn ps) ∧ (given ps).Sublist (u.listIn ps) ∧
    (given ps).Sublist batch
  cue : ∀ ps ∈ targets, (s.config ps).blockMode = .nonblocking → given ps ≠ [] →
    ((u.listIn ps).length : ℤ) ≤ (s.config ps).cue
  tried : ∀ before ps after, targets = before ++ ps :: after →
    u.eventsTry ps =
      eventsTry ps + s.tried select ps (batch.filter (· ∉ before.flatMap given))

section Delivers

variable {hdr : ℕ → EventHeader} {nevents : ℕ} {select : ℕ → ℕ → Bool} {s : Stations}
  {gs : List Group} {me : ℕ}

theorem accepted_sublist (s : Stations) (select : ℕ → ℕ → Bool) (ps cnt eventsTry : ℕ)
    (left : List ℕ) : (s.accepted select ps cnt eventsTry left).Sublist left := by
  have hturns : ∀ (n k : ℕ) (xs : List ℕ), (turns n k 0 xs).Sublist xs := by
    intro n k xs
    induction xs generalizing k with
    | nil => exact .refl _
    | cons e xs ih =>
        rw [turns_cons]
        split
        · exact (ih (k + 1)).cons_cons e
        · exact (ih (k + 1)).cons e
  unfold Stations.accepted
  split
  · exact (hturns _ _ _).trans List.filter_sublist
  · exact (List.take_sublist _ _).trans List.filter_sublist

/-- Old and new events keep their order when a list is written. -/
theorem sublist_llistWrite (high : ℕ → Bool) (xs new : List ℕ) :
    xs.Sublist (llistWrite high xs new) ∧ new.Sublist (llistWrite high xs new) := by
  cases new with
  | nil => exact ⟨.refl _, List.nil_sublist _⟩
  | cons e new =>
      by_cases hc : high e = false ∨ xs = []
      · have hwrite : llistWrite high xs (e :: new) = xs ++ e :: new := if_pos hc
        rw [hwrite]
        exact ⟨List.sublist_append_left .., List.sublist_append_right ..⟩
      · have hwrite : llistWrite high xs (e :: new) =
            xs.takeWhile high ++ (e :: new).takeWhile high ++ xs.dropWhile high ++
              (e :: new).dropWhile high := if_neg hc
        rw [hwrite]
        constructor
        · conv_lhs => rw [← List.takeWhile_append_dropWhile (p := high) (l := xs)]
          rw [List.append_assoc, List.append_assoc]
          refine (List.Sublist.refl _).append ?_
          exact (List.sublist_append_left ..).trans (List.sublist_append_right ..)
        · conv_lhs => rw [← List.takeWhile_append_dropWhile (p := high) (l := e :: new)]
          refine List.Sublist.append ?_ (.refl _)
          exact (List.sublist_append_right ..).trans (List.sublist_append_left ..)

/-- The stations behind the conductor's own. -/
theorem exists_following (hme : me ∈ members gs) :
    ∃ us g, gs = us ++ g :: following gs me := by
  unfold following
  induction gs with
  | nil => exact absurd hme List.not_mem_nil
  | cons g gs ih =>
      by_cases hg : me ∈ g.1 :: g.2
      · refine ⟨[], g, ?_⟩
        rw [List.dropWhile_cons_of_neg (by rw [decide_eq_true_eq]; exact not_not.mpr hg)]
        rfl
      · have hrest : me ∈ members gs := by
          rw [members_cons, List.mem_cons, List.mem_append, ← or_assoc] at hme
          exact hme.resolve_left fun h => hg (List.mem_cons.mpr h)
        obtain ⟨us, k, hk⟩ := ih hrest
        rw [List.dropWhile_cons_of_pos (by rw [decide_eq_true_eq]; exact hg)]
        exact ⟨g :: us, k, congrArg (g :: ·) hk⟩

/-- They are different, and GRAND_CENTRAL is none of them. -/
theorem ChainOk.following (h : ChainOk s gs) (hme : me ∈ members gs) :
    (members (following gs me)).Nodup ∧ 0 ∉ members (following gs me) := by
  obtain ⟨us, g, hgs⟩ := exists_following hme
  refine ⟨?_, fun hmem => ?_⟩
  · have hnd := h.nodup
    rw [hgs, members_append, List.nodup_append'] at hnd
    have := hnd.2.1
    rw [members_cons, List.nodup_cons, List.nodup_append'] at this
    exact this.2.2.1
  · have hchain : ChainOk s ((us ++ [g]) ++ EventTransfer.following gs me) := by
      rw [List.append_assoc, List.singleton_append, ← hgs]
      exact h
    exact hchain.ne_zero (by simp) hmem rfl

/-- The beginning of a pass. -/
theorem pass_start (s : Stations) (listIn : ℕ → List ℕ) (eventsTry : ℕ → ℕ) (ntemps : ℤ)
    {batch : List ℕ} (hbatch : batch.Nodup) :
    (⟨s, listIn, eventsTry, ntemps, batch.map (·, false), batch.length, true⟩ : Pass).left =
      batch ∧
    (⟨s, listIn, eventsTry, ntemps, batch.map (·, false), batch.length, true⟩ : Pass).Ok := by
  have hleft : (⟨s, listIn, eventsTry, ntemps, batch.map (·, false), batch.length, true⟩ :
      Pass).left = batch := by
    unfold Pass.left
    split
    case isTrue h0 => exact (List.length_eq_zero_iff.mp h0).symm
    case isFalse => exact unput_map batch
  refine ⟨hleft, by rw [hleft], fun _ x hx => ?_, hleft.symm ▸ hbatch⟩
  obtain ⟨e, -, rfl⟩ := List.mem_map.mp hx
  rfl

/-- **Every pass along a chain that takes events delivers its batch.** -/
theorem conductor_delivers (h : ChainOk s gs) (hme : me ∈ members gs)
    (htakes : ∀ g ∈ following gs me, s.TakesEvents g) {batch : List ℕ} (hbatch : batch.Nodup)
    {listIn : ℕ → List ℕ} (hroom : ∀ ps, (listIn ps).length + batch.length ≤ nevents)
    (eventsTry : ℕ → ℕ) (ntemps : ℤ) :
    ∃ u given,
      conductor hdr nevents select gs me s listIn eventsTry ntemps batch = some u ∧
        u.eventsLeft = 0 ∧
        Delivers hdr select s (s.actives (members (following gs me))) batch listIn eventsTry u
          given := by
  obtain ⟨hnodup, hzero⟩ := h.following hme
  set w : Pass := ⟨s, listIn, eventsTry, ntemps, batch.map (·, false), batch.length, true⟩ with hw
  obtain ⟨hleft, hok⟩ : w.left = batch ∧ w.Ok := pass_start s listIn eventsTry ntemps hbatch
  obtain ⟨m, given, hfeeds, hokm, hroomm, hconduct⟩ := feeds_conduct hdr
    select nevents hnodup htakes hok (fun ps => by
      rw [hleft]
      exact hroom ps)
  set targets := s.actives (members (following gs me)) with htargets
  have hnot0 : 0 ∉ targets := fun hmem => hzero (List.mem_filter.mp hmem).1
  have hmleft : m.left = batch.filter (· ∉ targets.flatMap given) := hleft ▸ hfeeds.left
  -- what GRAND_CENTRAL gets
  obtain ⟨u, hu, hu0, hlist0, hlists, htry⟩ : ∃ u,
      Pass.conduct hdr nevents select (following gs me) w = some u ∧ u.eventsLeft = 0 ∧
        u.listIn 0 = m.listIn 0 ++ m.left ∧ (∀ ps, ps ≠ 0 → u.listIn ps = m.listIn ps) ∧
        u.eventsTry = m.eventsTry := by
    by_cases hzero : m.eventsLeft = 0
    · refine ⟨m, by rw [hconduct, if_pos hzero], hzero, ?_, fun _ _ => rfl, rfl⟩
      have : m.left = [] := if_pos hzero
      rw [this, List.append_nil]
    · refine ⟨{ m with
        listIn := Function.update m.listIn 0 (m.listIn 0 ++ m.left)
        ntemps := m.ntemps - (m.left.countP fun e => (hdr e).temp = .temp)
        eventsLeft := 0 }, ?_, rfl, ?_, fun ps hps => ?_, rfl⟩
      · rw [hconduct, if_neg hzero, finish_eq hokm hzero (hroomm 0)]
      · dsimp only
        rw [Function.update_self]
      · dsimp only
        rw [Function.update_of_ne hps]
  refine ⟨u, Function.update given 0 m.left, hu, hu0, ?_⟩
  have hsame : ∀ ps, ps ≠ 0 → Function.update given 0 m.left ps = given ps := fun ps hps =>
    Function.update_of_ne hps ..
  have hflat : ∀ xs ⊆ targets, xs.flatMap (Function.update given 0 m.left) = xs.flatMap given :=
    fun xs hxs => List.flatMap_congr fun ps hps => hsame ps fun h0 => hnot0 (h0 ▸ hxs hps)
  have hbefore : ∀ before ps after, targets = before ++ ps :: after → before ⊆ targets ∧ ps ≠ 0 :=
    fun before ps after hsplit =>
      ⟨hsplit ▸ List.subset_append_left _ _, fun h0 => hnot0 (by rw [hsplit, h0]; simp)⟩
  have hgiven0 : given 0 = [] := (hfeeds.only 0 hnot0).1
  have haccepts : ∀ before ps after, targets = before ++ ps :: after →
      given ps = s.accepted select ps (listIn ps).length (eventsTry ps)
        (batch.filter (· ∉ before.flatMap given)) := fun before ps after hsplit => by
    have := hfeeds.accepts before ps after hsplit
    rwa [hleft] at this
  have hsub : ∀ ps, (given ps).Sublist batch := fun ps => by
    by_cases hps : ps ∈ targets
    · obtain ⟨before, after, hsplit⟩ := List.append_of_mem hps
      rw [haccepts before ps after hsplit]
      exact (accepted_sublist ..).trans List.filter_sublist
    · rw [(hfeeds.only ps hps).1]
      exact List.nil_sublist _
  have hmsub : m.left.Sublist batch := hmleft ▸ List.filter_sublist
  have hlist : ∀ ps, ps ≠ 0 → u.listIn ps = llistWrite (isHigh hdr) (listIn ps) (given ps) :=
    fun ps hps => (hlists ps hps).trans (hfeeds.lists ps)
  have hlist0' : u.listIn 0 = listIn 0 ++ m.left := by
    rw [hlist0, hfeeds.lists, hgiven0, llistWrite_nil]
  refine ⟨?_, fun before ps after hsplit => ?_, ?_, fun ps hps hps0 => ?_, fun ps hps => ?_, ?_,
    fun ps => ?_, fun ps hps hblock hsome => ?_, fun before ps after hsplit => ?_⟩
  · rw [hflat _ (List.Subset.refl _), Function.update_self]
    have hperm := hfeeds.perm
    rwa [hleft] at hperm
  · obtain ⟨hb, hps0⟩ := hbefore before ps after hsplit
    rw [hsame ps hps0, hflat _ hb]
    exact haccepts before ps after hsplit
  · rw [hflat _ (List.Subset.refl _), Function.update_self]
    exact hmleft
  · rw [hsame ps hps0]
    exact (hfeeds.only ps hps).1
  · rw [hsame ps hps]
    exact hlist ps hps
  · rw [Function.update_self]
    exact hlist0'
  · rcases eq_or_ne ps 0 with rfl | hps
    · rw [Function.update_self, hlist0']
      exact ⟨List.sublist_append_left .., List.sublist_append_right .., hmsub⟩
    · rw [hsame ps hps, hlist ps hps]
      obtain ⟨hold, hnew⟩ := sublist_llistWrite (isHigh hdr) (listIn ps) (given ps)
      exact ⟨hold, hnew, hsub ps⟩
  · have hps0 : ps ≠ 0 := fun h0 => hnot0 (h0 ▸ hps)
    rw [hsame ps hps0] at hsome
    obtain ⟨before, after, hsplit⟩ := List.append_of_mem hps
    have hacc := haccepts before ps after hsplit
    unfold Stations.accepted at hacc
    rw [hblock] at hacc
    have hlen := congrArg List.length hacc
    rw [List.length_take] at hlen
    have hpos := List.length_pos_iff.mpr hsome
    rw [hlist ps hps0, length_llistWrite]
    omega
  · obtain ⟨hb, -⟩ := hbefore before ps after hsplit
    rw [hflat _ hb, htry, hfeeds.tried before ps after hsplit, hleft]

end Delivers

/-! ### From batch to batch -/

section Prescale

variable (hdr : ℕ → EventHeader) (nevents ps prescale start : ℕ)

/-- **Passes in which a station is active and blocking**, with the same prescale: the events it
has selected of those that were left for it, the events it has got of them, and its count of
events tried.  In between the chain, the lists and all other counts may change. -/
inductive PrescaleRun : List ℕ → List ℕ → ℕ → Prop
  | nil : PrescaleRun [] [] start
  | pass {selected accepted : List ℕ} {count : ℕ} (run : PrescaleRun selected accepted count)
      {select : ℕ → ℕ → Bool} {gs : List Group} {me : ℕ} {s : Stations} {batch : List ℕ}
      {listIn : ℕ → List ℕ} {eventsTry : ℕ → ℕ} {ntemps : ℤ} {u : Pass} {given : ℕ → List ℕ}
      (conduct : conductor hdr nevents select gs me s listIn eventsTry ntemps batch = some u)
      (delivers : Delivers hdr select s (s.actives (members (following gs me))) batch listIn
        eventsTry u given)
      {before after : List ℕ}
      (target : s.actives (members (following gs me)) = before ++ ps :: after)
      (blocking : (s.config ps).blockMode = .blocking)
      (same : (s.config ps).prescale = prescale) (counted : eventsTry ps = count) :
      PrescaleRun
        (selected ++ (batch.filter (· ∉ before.flatMap given)).filter (s.selects select ps))
        (accepted ++ given ps) (u.eventsTry ps)

variable {hdr nevents ps prescale start}

/-- **A blocking station accepts every `prescale`-th event** of those that it selects, counted
from batch to batch. -/
theorem PrescaleRun.accepted_eq {selected accepted : List ℕ} {count : ℕ}
    (run : PrescaleRun hdr nevents ps prescale start selected accepted count) :
    accepted = turns prescale start 0 selected ∧ count = start + selected.length := by
  induction run with
  | nil => exact ⟨rfl, rfl⟩
  | pass run conduct delivers target blocking same counted ih =>
      obtain ⟨haccepted, hcount⟩ := ih
      have hgiven := delivers.accepts _ _ _ target
      have htried := delivers.tried _ _ _ target
      unfold Stations.accepted at hgiven
      unfold Stations.tried at htried
      rw [blocking] at hgiven htried
      dsimp only at hgiven htried
      rw [same, Int.toNat_natCast, counted, hcount] at hgiven
      rw [counted, hcount] at htried
      exact ⟨by rw [turns_append, ← haccepted, ← hgiven],
        by rw [htried, List.length_append, Nat.add_assoc]⟩

end Prescale

/-- **A chain of stations that take events conserves them.**  Every pass ends with every event of
its batch in one list: that of the first active station that accepts it, or GRAND_CENTRAL's.  And
from batch to batch a blocking station accepts every `prescale`-th event of those that it
selects. -/
theorem conductor_conserves (hdr : ℕ → EventHeader) (nevents : ℕ) :
    (∀ (select : ℕ → ℕ → Bool) (s : Stations) (gs : List Group) (me : ℕ) (batch : List ℕ)
        (listIn : ℕ → List ℕ) (eventsTry : ℕ → ℕ) (ntemps : ℤ),
      ChainOk s gs → me ∈ members gs → (∀ g ∈ following gs me, s.TakesEvents g) →
      batch.Nodup → (∀ ps, (listIn ps).length + batch.length ≤ nevents) →
        ∃ u given,
          conductor hdr nevents select gs me s listIn eventsTry ntemps batch = some u ∧
            u.eventsLeft = 0 ∧
            Delivers hdr select s (s.actives (members (following gs me))) batch listIn eventsTry u
              given) ∧
    ∀ (ps prescale start : ℕ) (selected accepted : List ℕ) (count : ℕ),
      PrescaleRun hdr nevents ps prescale start selected accepted count →
        accepted = turns prescale start 0 selected ∧ count = start + selected.length :=
  ⟨fun _ _ _ _ _ _ eventsTry ntemps h hme htakes hbatch hroom =>
    conductor_delivers h hme htakes hbatch hroom eventsTry ntemps,
  fun _ _ _ _ _ _ run => run.accepted_eq⟩

/-- GRAND_CENTRAL, and behind it one active station with a prescale of `2`. -/
def prescaledStation (blockMode : BlockMode) : Stations :=
  { Stations.blank with
    config := fun ps => if ps = 1 then
      { StatConfig.default with blockMode := blockMode, prescale := 2 } else .default
    status := fun _ => .active
    next := fun ps => if ps = 0 then some 1 else none
    prev := fun ps => if ps = 1 then some 0 else none
    statTail := some 1 }

theorem chainOk_prescaledStation (blockMode : BlockMode) :
    ChainOk (prescaledStation blockMode) [(0, []), (1, [])] := by
  refine ⟨rfl, ⟨rfl, rfl, rfl, rfl, trivial⟩, rfl, fun g hg => ?_, fun g hg => ?_,
    fun g hg => ?_, by decide⟩
  all_goals
    simp only [List.mem_cons, List.not_mem_nil, or_false] at hg
    rcases hg with rfl | rfl
  · exact ⟨rfl, rfl, trivial⟩
  · exact ⟨rfl, rfl, trivial⟩
  · exact fun i hi => absurd hi (by simp)
  · exact fun i hi => absurd hi (by simp)
  · exact fun h => absurd rfl h
  · exact fun h => absurd rfl h

/-- Three events, and one after them: the blocking station gets the first and the third. -/
theorem conductor_conserves_example :
    ∃ selected accepted count,
      PrescaleRun (fun _ => .init) 4 1 2 0 selected accepted count ∧
        selected = [10, 11, 12] ∧ accepted = [10, 12] ∧ count = 3 := by
  obtain ⟨hpass, hrun⟩ := conductor_conserves (fun _ => .init) 4
  obtain ⟨u, given, hu, -, hdelivers⟩ := hpass (fun _ _ => true) (prescaledStation .blocking)
    [(0, []), (1, [])] 0 [10, 11, 12] (fun _ => []) (fun _ => 0) 0
    (chainOk_prescaledStation .blocking) (by decide) (by unfold Stations.TakesEvents; decide)
    (by decide) fun _ => by simp
  have hturns : turns 2 0 0 [10, 11, 12] = [10, 12] := by decide
  have htarget : (prescaledStation .blocking).actives
      (members (following [(0, []), (1, [])] 0)) = [] ++ 1 :: [] := rfl
  have run := PrescaleRun.pass (@PrescaleRun.nil (fun _ => .init) 4 1 2 0) hu hdelivers htarget
    rfl rfl rfl
  obtain ⟨haccepted, hcount⟩ := hrun _ _ _ _ _ _ run
  exact ⟨_, _, _, run, rfl, haccepted.trans hturns, hcount⟩

/-- **A nonblocking station pays no attention to its prescale**: both events of the batch go into
its list, where every second one would be the first alone. -/
theorem nonblocking_ignores_prescale :
    (conductor (fun _ => .init) 4 (fun _ _ => true) [(0, []), (1, [])] 0
        (prescaledStation .nonblocking) (fun _ => []) (fun _ => 0) 0 [10, 11]).map
          (fun u => (u.listIn 1, u.eventsTry 1)) = some ([10, 11], 0) ∧
      turns 2 0 0 [10, 11] = [10] := by
  decide

end EventTransfer
