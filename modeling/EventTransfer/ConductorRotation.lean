import EventTransfer.ConductorTurns

/-!
# Round-robin from batch to batch

Where a round-robin group comes first behind a conductor's station, it gets every batch as a
whole, and nothing but the flags `waslast` is kept from one batch to the next.  The members take
turns all the same: as long as the same members are active, event number `k` of all that are ever
dealt out goes to the member that is `k` places behind the one that got the first
(`TurnRun.takesTurns`).  A pass is followed through the whole conductor, and between two passes
anything may happen that leaves the group and its flags alone.

A member that is taken out of the group hands its flag to the one before it, so that those that
are left take turns as they would have (`dealOrder_stationRemove`).
-/

namespace EventTransfer

open LinkedHeap StoreProgram StoreProgram.Prog

/-- Of events that are numbered from `k` on, those for number `i` of `n` stations. -/
def turns (n k i : ℕ) (batch : List ℕ) : List ℕ :=
  ((List.range batch.length).filter fun j => (k + j) % n = i).filterMap fun j => batch[j]?

/-- What is seen of a pass: the batch, and the input lists before and after. -/
structure PassLog where
  batch : List ℕ
  before : ℕ → List ℕ
  after : ℕ → List ℕ

/-- **New events are put into a list**, as `et_llist_write` does it: the list has these events beside
its own then, and those of either priority stay in order, the new ones last. -/
structure PutInto (hdr : ℕ → EventHeader) (before new after : List ℕ) : Prop where
  write : after = llistWrite (isHigh hdr) before new
  perm : after.Perm (before ++ new)
  order : HighsFirst (isHigh hdr) before → ∀ high, after.filter (isHigh hdr · = high) =
    before.filter (isHigh hdr · = high) ++ new.filter (isHigh hdr · = high)

theorem putInto_llistWrite (hdr : ℕ → EventHeader) (before new : List ℕ) :
    PutInto hdr before new (llistWrite (isHigh hdr) before new) :=
  ⟨rfl, llistWrite_perm .., fun h high => h.filter_llistWrite new high⟩

/-- **The stations take turns** with events that are numbered from `k` on: each gets its events
in its input list, and no other station gets any. -/
def PassLog.TakesTurns (hdr : ℕ → EventHeader) (stations : List ℕ) (k : ℕ) (log : PassLog) : Prop :=
  (∀ i ps, stations[i]? = some ps →
    PutInto hdr (log.before ps) (turns stations.length k i log.batch) (log.after ps)) ∧
  ∀ ps ∉ stations, log.after ps = log.before ps

/-- The number of events in all batches. -/
def dealtBefore (logs : List PassLog) : ℕ := (logs.map fun log => log.batch.length).sum

/-- The group is one that is dealt to in turn. -/
def Stations.IsRrobin (s : Stations) (g : Group) : Prop :=
  s.isParallel g.1 = true ∧ (s.config g.1).selectMode = .rrobin

/-- **Nothing happens to the group**: the same members are active, and have the same flags. -/
structure SameTurn (g : Group) (s t : Stations) : Prop where
  rrobin : t.config g.1 = s.config g.1
  status : ∀ ps ∈ g.1 :: g.2, t.status ps = .active ↔ s.status ps = .active
  waslast : ∀ ps ∈ g.1 :: g.2, t.waslast ps = s.waslast ps

section Run

variable (hdr : ℕ → EventHeader) (nevents : ℕ) (select : ℕ → ℕ → Bool)

/-- **Batches one after another** of a conductor behind whose station the group `g` comes first.
Each finds the input lists in whatever state they are in, with room for its events. -/
inductive TurnRun (g : Group) (s : Stations) : List PassLog → Stations → Prop
  | nil : TurnRun g s [] s
  | other {logs : List PassLog} {t u : Stations} (run : TurnRun g s logs t)
      (same : SameTurn g t u) : TurnRun g s logs u
  | pass {logs : List PassLog} {t : Stations} {w : Pass} (run : TurnRun g s logs t)
      (gs : List Group) (listIn : ℕ → List ℕ) (eventsTry : ℕ → ℕ) (ntemps : ℤ) (batch : List ℕ)
      (nonempty : batch ≠ [])
      (room : ∀ ps, (listIn ps).length + batch.length ≤ nevents)
      (conduct : Pass.conduct hdr nevents select (g :: gs)
        ⟨t, listIn, eventsTry, ntemps, batch.map (·, false), batch.length, true⟩ = some w) :
      TurnRun g s (logs ++ [⟨batch, listIn, w.listIn⟩]) w.stations

end Run

/-! ### One pass -/

section Deal

variable {hdr : ℕ → EventHeader} {nevents : ℕ}

variable (hdr nevents) in
/-- **Writes to different stations** change their input lists, and nothing else matters. -/
theorem deal_eq {writes : List Write} (hnodup : (writes.map Prod.fst).Nodup) (w : Pass)
    (hroom : ∀ x ∈ writes, x.2.length ≤ nevents - (w.listIn x.1).length) :
    ∃ u, Pass.deal hdr nevents writes w = some u ∧ u.stations = w.stations ∧
      u.ntemps = w.ntemps ∧ u.eventsLeft = w.eventsLeft - (writes.flatMap Prod.snd).length ∧
      ∀ ps, u.listIn ps = llistWrite (isHigh hdr) (w.listIn ps) (written writes ps) := by
  induction writes generalizing w with
  | nil => exact ⟨w, rfl, rfl, rfl, rfl, fun ps => rfl⟩
  | cons x writes ih =>
      obtain ⟨r, pe⟩ := x
      rw [List.map_cons] at hnodup
      obtain ⟨hr, hnodup⟩ := List.nodup_cons.mp hnodup
      rw [List.forall_mem_cons] at hroom
      unfold Pass.deal Pass.write
      dsimp only
      rw [if_pos hroom.1, Option.bind_some]
      have hother : ∀ x ∈ writes, x.1 ≠ r := fun x hx heq =>
        hr (List.mem_map.mpr ⟨x, hx, heq⟩)
      obtain ⟨u, hu, hstations, hntemps, hleft, hlists⟩ := ih hnodup
        { w with
          listIn := Function.update w.listIn r (llistWrite (isHigh hdr) (w.listIn r) pe)
          eventsTry := Function.update w.eventsTry r (w.eventsTry r + pe.length)
          eventsLeft := w.eventsLeft - pe.length }
        fun x hx => by
          dsimp only
          rw [Function.update_of_ne (hother x hx)]
          exact hroom.2 x hx
      refine ⟨u, hu, hstations, hntemps, ?_, fun ps => ?_⟩
      · rw [hleft, List.flatMap_cons, List.length_append]
        dsimp only
        omega
      · rw [hlists, written_cons]
        dsimp only
        rcases eq_or_ne r ps with rfl | hps
        · rw [Function.update_self, if_pos rfl, written_of_notMem hr, List.append_nil,
            llistWrite_nil]
        · rw [Function.update_of_ne hps.symm, if_neg hps, List.nil_append]

/-- What the stations of a group get is what is written. -/
theorem flatMap_written {order : List ℕ} (hnodup : order.Nodup) {writes : List Write}
    (hsub : (writes.map Prod.fst).Sublist order) :
    order.flatMap (written writes) = writes.flatMap Prod.snd := by
  induction order generalizing writes with
  | nil =>
      rw [List.sublist_nil, List.map_eq_nil_iff] at hsub
      rw [hsub]
      rfl
  | cons r order ih =>
      obtain ⟨hr, hrest⟩ := List.nodup_cons.mp hnodup
      by_cases hmem : r ∈ writes.map Prod.fst
      · cases writes with
        | nil => exact absurd hmem (by simp)
        | cons w writes =>
            rw [List.map_cons] at hsub hmem
            obtain rfl : w.1 = r := by
              rcases List.cons_sublist_cons'.mp hsub with hsub' | ⟨heq, -⟩
              · exact absurd (hsub'.subset hmem) hr
              · exact heq
            have hsub' := List.cons_sublist_cons.mp hsub
            have hnot : w.1 ∉ writes.map Prod.fst := fun h => hr (hsub'.subset h)
            rw [List.flatMap_cons, List.flatMap_cons, written_cons, if_pos rfl,
              written_of_notMem hnot, List.append_nil, ← ih hrest hsub']
            refine congrArg (w.2 ++ ·) (List.flatMap_congr fun ps hps => ?_)
            have hne : w.1 ≠ ps := fun heq => hr (by rw [heq]; exact hps)
            rw [written_cons, if_neg hne, List.nil_append]
      · rw [List.flatMap_cons, written_of_notMem hmem, List.nil_append]
        exact ih hrest ((List.sublist_cons_iff.mp hsub).resolve_right fun ⟨l, hl, _⟩ =>
          hmem (hl ▸ List.mem_cons_self))

variable {select : ℕ → ℕ → Bool} {s : Stations} {g : Group}

variable (hdr nevents select) in
/-- **A pass that comes to the group first** gives the whole batch to it. -/
theorem conduct_rrobin (hrobin : s.IsRrobin g) (hne : s.actives (g.1 :: g.2) ≠ [])
    (hnodup : (g.1 :: g.2).Nodup) (gs : List Group) (listIn : ℕ → List ℕ) (eventsTry : ℕ → ℕ)
    (ntemps : ℤ) {batch : List ℕ} (hbatch : batch ≠ [])
    (hroom : ∀ ps, (listIn ps).length + batch.length ≤ nevents) :
    ∃ w writes, Pass.conduct hdr nevents select (g :: gs)
        ⟨s, listIn, eventsTry, ntemps, batch.map (·, false), batch.length, true⟩ = some w ∧
      DealsRound (s.dealOrder (g.1 :: g.2)) batch writes ∧
      w.stations = s.markLast (g.1 :: g.2) (s.dealOrder (g.1 :: g.2)) batch.length ∧
      ∀ ps, w.listIn ps = llistWrite (isHigh hdr) (listIn ps) (written writes ps) := by
  have hrotated := (Stations.inTurn_dealOrder hne hnodup).rotated.perm
  have hnodup' : (s.dealOrder (g.1 :: g.2)).Nodup := hrotated.nodup_iff.mpr (hnodup.filter _)
  have hne' : s.dealOrder (g.1 :: g.2) ≠ [] := fun h => hne (by
    rw [h] at hrotated
    exact hrotated.nil_eq.symm)
  have hall : ∀ x ∈ batch.map (·, false), x.2 = false := fun x hx => by
    obtain ⟨e, -, rfl⟩ := List.mem_map.mp hx
    rfl
  have hunput : unput (batch.map (·, false)) = batch := unput_map batch
  have hdeals := @dealsRound_of_pieces (s.dealOrder (g.1 :: g.2)) true (batch.map (·, false)) hne'
    hnodup' (fun _ => hall) fun i _ hi => by
      rw [hunput] at hi
      exact (unputBefore_eq_iff (by rw [List.length_map]; omega)).mpr fun x hx =>
        hall x (List.mem_of_mem_take hx)
  rw [hunput] at hdeals
  have hsub := map_fst_rrobinWrites (s.dealOrder (g.1 :: g.2)) true (batch.map (·, false))
    batch.length
  generalize hwrites : rrobinWrites (s.dealOrder (g.1 :: g.2)) true (batch.map (·, false))
    batch.length = writes at hdeals hsub
  have hflat := flatMap_written hnodup' hsub
  have hlen : (writes.flatMap Prod.snd).length = batch.length := by
    rw [← hflat]
    exact hdeals.perm.length_eq
  obtain ⟨u, hu, hstations, -, hleft, hlists⟩ := deal_eq hdr nevents
    (hsub.nodup hnodup')
    ⟨s.markLast (g.1 :: g.2) (s.dealOrder (g.1 :: g.2)) batch.length, listIn, eventsTry, ntemps,
      batch.map (·, false), batch.length, true⟩
    fun x hx => by
      have hle : x.2.length ≤ (writes.flatMap Prod.snd).length := by
        rw [List.flatMap_def]
        exact (List.sublist_flatten_of_mem (List.mem_map_of_mem hx)).length_le
      have := hroom x.1
      dsimp only
      omega
  dsimp only at hleft hstations
  rw [hlen, Nat.sub_self] at hleft
  have hpos := List.length_pos_iff.mpr hbatch
  have hsharing : (s.config g.1).isSharing := .inl hrobin.2
  have hstop : Pass.stop hdr nevents select
      ⟨s, listIn, eventsTry, ntemps, batch.map (·, false), batch.length, true⟩ g = some u := by
    unfold Pass.stop
    dsimp only
    rw [if_neg hne, if_pos ⟨hrobin.1, hsharing⟩]
    unfold Pass.dealGroup
    rw [if_pos hrobin.2]
    dsimp only
    rw [hwrites]
    exact hu
  refine ⟨{ u with firstimethruloop := false }, writes, ?_, hdeals, hstations, hlists⟩
  unfold Pass.conduct
  dsimp only
  rw [if_neg (by omega), hstop, Option.bind_some]
  cases gs with
  | nil =>
      unfold Pass.conduct
      rw [if_pos hleft]
  | cons g' gs =>
      unfold Pass.conduct
      rw [if_pos hleft]

end Deal

/-! ### Turns -/

section Turns

variable {s t : Stations} {g : Group} {members stations : List ℕ} {n : ℕ}

/-- Member number `i` in the group, counted from number `k` on. -/
theorem everyNth_eq_turns {k i : ℕ} (hi : i < n) (batch : List ℕ) :
    everyNth n i batch = turns n k ((i + k) % n) batch := by
  unfold everyNth turns
  congr 1
  refine List.filter_congr fun j _ => ?_
  rw [decide_eq_decide, Nat.add_comm k j]
  constructor
  · rintro rfl
    rw [Nat.mod_add_mod]
  · intro h
    have := Nat.ModEq.add_right_cancel' k h
    rwa [Nat.ModEq, Nat.mod_eq_of_lt hi] at this

/-- A rotation is known by the place of one element. -/
theorem rotate_eq_of_getElem? (hnodup : stations.Nodup) {a b i j : ℕ}
    (hi : i < stations.length) (hj : j < stations.length)
    (h : (stations.rotate a)[i]? = (stations.rotate b)[j]?) :
    (i + a) % stations.length = (j + b) % stations.length := by
  have hpos : 0 < stations.length := by omega
  rw [List.getElem?_rotate hi, List.getElem?_rotate hj] at h
  exact (List.getElem?_inj (Nat.mod_lt _ hpos) hnodup).mp h

/-- The search finds an active member, if any. -/
theorem lookForStart_active (s : Stations) (members : List ℕ) (r : Option ℕ × Bool) {ps : ℕ}
    (h : (s.lookForStart members r).1 = some ps) :
    r.1 = some ps ∨ ps ∈ s.actives members := by
  induction members generalizing r with
  | nil => exact .inl h
  | cons pstat members ih =>
      unfold Stations.lookForStart at h
      have hcons : s.actives members ⊆ s.actives (pstat :: members) :=
        (List.Sublist.filter _ (List.sublist_cons_self pstat members)).subset
      rcases ih _ h with h | h
      · by_cases hactive : s.status pstat = .active ∧ r.2 = true
        · have hps : ps = pstat := by
            rw [if_pos hactive] at h
            split at h
            · exact (Option.some.inj h).symm
            · exact (Option.some.inj h).symm
          refine .inr (List.mem_filter.mpr ⟨hps ▸ List.mem_cons_self, ?_⟩)
          rw [hps]
          exact decide_eq_true hactive.1
        · rw [if_neg hactive] at h
          split at h
          · exact .inl h
          · exact .inl h
      · exact .inr (hcons h)

theorem startStation_mem (h : s.actives members ≠ []) :
    s.startStation members ∈ s.actives members := by
  unfold Stations.startStation
  cases hfind : (s.lookForStart members (none, false)).1 with
  | none =>
      cases hactives : s.actives members with
      | nil => exact absurd hactives h
      | cons a rest => exact List.mem_cons_self
  | some ps =>
      exact (lookForStart_active s members _ hfind).resolve_left nofun

/-- **The group is dealt to from `startStation` on.** -/
theorem dealOrder_eq_rotate (h : s.actives members ≠ []) :
    s.dealOrder members =
      (s.actives members).rotate ((s.actives members).idxOf (s.startStation members)) := by
  obtain ⟨hin, hactive⟩ := List.mem_filter.mp (startStation_mem h)
  obtain ⟨before, after, hsplit, hnot⟩ := List.eq_append_cons_of_mem hin
  unfold Stations.dealOrder
  dsimp only
  generalize s.startStation members = start at *
  have hactives : s.actives members = s.actives before ++ start :: s.actives after := by
    rw [hsplit, Stations.actives, List.filter_append, List.filter_cons, if_pos hactive]
    rfl
  have hidx : (s.actives members).idxOf start = (s.actives before).length := by
    have hnot' : start ∉ s.actives before := fun h => hnot (List.mem_filter.mp h).1
    rw [hactives, List.idxOf_append_of_notMem hnot', List.idxOf_cons_self, Nat.add_zero]
  rw [hidx, hactives, List.rotate_append_length_eq, hsplit, rotate_from hnot]
  unfold Stations.actives
  rw [List.filter_append, List.filter_cons, if_pos hactive]

/-- The rotation that ends with the last one served is the next. -/
theorem rotate_of_last (hnodup : stations.Nodup) {order next : List ℕ} {k : ℕ} (hk : 0 < k)
    (horder : order.IsRotated stations) (hnext : next.IsRotated stations)
    (hlast : next[stations.length - 1]? = order[(k - 1) % stations.length]?)
    (hpos : 0 < stations.length) : next = order.rotate k := by
  obtain ⟨a, rfl⟩ := horder.symm
  obtain ⟨b, rfl⟩ := hnext.symm
  have hmod := rotate_eq_of_getElem? hnodup (by omega) (Nat.mod_lt _ hpos) hlast
  rw [Nat.mod_add_mod] at hmod
  have hsucc : (stations.length - 1 + b + 1) % stations.length =
      (k - 1 + a + 1) % stations.length := Nat.ModEq.add_right 1 hmod
  rw [show stations.length - 1 + b + 1 = b + stations.length by omega, Nat.add_mod_right,
    show k - 1 + a + 1 = a + k by omega] at hsucc
  rw [List.rotate_rotate, ← List.rotate_mod, hsucc, List.rotate_mod]

theorem actives_markLast (s : Stations) (members order : List ℕ) (eventsLeft : ℕ)
    (xs : List ℕ) : (s.markLast members order eventsLeft).actives xs = s.actives xs := rfl

/-- **The flags after a batch** make the next one begin where it ended. -/
theorem dealOrder_markLast (h : s.actives members ≠ []) (hnodup : members.Nodup)
    {eventsLeft : ℕ} (hpos : 0 < eventsLeft) :
    (s.markLast members (s.dealOrder members) eventsLeft).dealOrder members =
      (s.dealOrder members).rotate eventsLeft := by
  have hnodup' : (s.actives members).Nodup := hnodup.filter _
  have hpos' : 0 < (s.actives members).length := List.length_pos_iff.mpr h
  have hrotated := (Stations.inTurn_dealOrder h hnodup).rotated
  generalize s.dealOrder members = order at *
  have hlen : order.length = (s.actives members).length := hrotated.perm.length_eq
  -- the member that is marked
  obtain ⟨last, hlast⟩ : ∃ last, order[(eventsLeft - 1) % order.length]? = some last :=
    ⟨_, List.getElem?_eq_getElem (Nat.mod_lt _ (by omega))⟩
  obtain ⟨hmem, hactive⟩ := List.mem_filter.mp
    (hrotated.perm.mem_iff.mp (List.mem_of_getElem? hlast))
  have hmarked : ∀ ps ∈ members,
      (s.markLast members order eventsLeft).waslast ps = decide (last = ps) := by
    intro ps hps
    unfold Stations.markLast
    dsimp only
    rw [if_pos hps, lastEventIndex_eq (by omega) hpos, hlast, decide_eq_decide, Option.some_inj]
  obtain ⟨before, after, hsplit, hnot⟩ := List.eq_append_cons_of_mem hmem
  have hnext := @Stations.inTurn_dealOrder (s.markLast members order eventsLeft) members h hnodup
  refine rotate_of_last hnodup' hpos hrotated hnext.rotated ?_ hpos'
  rw [← hlen, hlast, hnext.behind before last after hsplit]
  · rw [actives_markLast, hlen, hsplit]
    unfold Stations.actives
    simp only [List.filter_append, List.filter_cons, hactive, if_true, List.length_append,
      List.length_cons, List.filter_nil]
    rw [List.getElem?_append_right (by rw [List.length_append]; omega), List.length_append]
    rw [show (before.filter fun ps => decide (s.status ps = .active)).length +
      ((after.filter fun ps => decide (s.status ps = .active)).length + 1) - 1 -
        ((after.filter fun ps => decide (s.status ps = .active)).length +
          (before.filter fun ps => decide (s.status ps = .active)).length) = 0 by omega]
    rfl
  · rw [hmarked last hmem, decide_eq_true rfl]
  · intro r hr
    rw [hsplit, List.nodup_middle, List.nodup_cons] at hnodup
    have hne : last ≠ r := fun heq => hnodup.1 (heq ▸ hr)
    have hin : r ∈ members := by
      rw [hsplit]
      exact ((List.sublist_cons_self last after).append_left before).subset hr
    rw [hmarked r hin, decide_eq_false hne]

/-- What is written in a round, in terms of the numbers of the events. -/
theorem DealsRound.written_eq {batch : List ℕ} {writes : List Write} {k : ℕ}
    (h : DealsRound (stations.rotate k) batch writes) {i ps : ℕ} (hi : stations[i]? = some ps) :
    written writes ps = turns stations.length k i batch := by
  obtain ⟨hlt, -⟩ := List.getElem?_eq_some_iff.mp hi
  -- the place of member number `i` in the rotation
  obtain ⟨j, hj, hij⟩ : ∃ j < stations.length, (j + k) % stations.length = i := by
    refine ⟨(i + (stations.length - k % stations.length)) % stations.length,
      Nat.mod_lt _ (by omega), ?_⟩
    have hk := Nat.mod_lt k (by omega : 0 < stations.length)
    rw [Nat.mod_add_mod, ← Nat.add_mod_mod, show i + (stations.length - k % stations.length) +
      k % stations.length = i + stations.length by omega, Nat.add_mod_right, Nat.mod_eq_of_lt hlt]
  have hget : (stations.rotate k)[j]? = some ps := by rw [List.getElem?_rotate hj, hij, hi]
  rw [h.nth j ps hget, List.length_rotate, everyNth_eq_turns hj, hij]

theorem DealsRound.written_of_notMem {order batch : List ℕ} {writes : List Write}
    (h : DealsRound order batch writes) {ps : ℕ} (hps : ps ∉ order) : written writes ps = [] :=
  EventTransfer.written_of_notMem fun hmem => by
    obtain ⟨w, hw, rfl⟩ := List.mem_map.mp hmem
    exact hps (h.only w hw)

/-- Nothing that happens elsewhere matters. -/
theorem SameTurn.actives (h : SameTurn g s t) :
    t.actives (g.1 :: g.2) = s.actives (g.1 :: g.2) := by
  refine List.filter_congr fun ps hps => ?_
  rw [decide_eq_decide]
  exact h.status ps hps

theorem SameTurn.dealOrder (h : SameTurn g s t) :
    t.dealOrder (g.1 :: g.2) = s.dealOrder (g.1 :: g.2) := by
  have hlook : ∀ (xs : List ℕ) (r : Option ℕ × Bool), xs ⊆ g.1 :: g.2 →
      t.lookForStart xs r = s.lookForStart xs r := by
    intro xs
    induction xs with
    | nil => exact fun r _ => rfl
    | cons ps xs ih =>
        intro r hsub
        have hps := hsub List.mem_cons_self
        have hxs : xs ⊆ g.1 :: g.2 := fun x hx => hsub (List.mem_cons_of_mem ps hx)
        unfold Stations.lookForStart
        dsimp only
        rw [ih _ hxs]
        simp only [h.status ps hps, h.waslast ps hps]
  have hstart : t.startStation (g.1 :: g.2) = s.startStation (g.1 :: g.2) := by
    unfold Stations.startStation
    rw [hlook _ _ (List.Subset.refl _), h.actives]
  unfold Stations.dealOrder
  dsimp only
  rw [hstart]
  refine List.filter_congr fun ps hps => ?_
  have hmem : ps ∈ g.1 :: g.2 := by
    rcases List.mem_append.mp hps with hps | hps
    · exact (List.dropWhile_sublist _).subset hps
    · exact (List.takeWhile_sublist _).subset hps
  rw [decide_eq_decide]
  exact h.status ps hmem

end Turns

/-! ### Runs -/

section Run

variable {hdr : ℕ → EventHeader} {nevents : ℕ} {select : ℕ → ℕ → Bool} {s t : Stations}
  {g : Group} {logs : List PassLog}

/-- **After any number of batches** the same members are active, the next round begins where the
last one ended, and every batch has been dealt out in turn. -/
theorem TurnRun.takesTurns (run : TurnRun hdr nevents select g s logs t) (hrobin : s.IsRrobin g)
    (hne : s.actives (g.1 :: g.2) ≠ []) (hnodup : (g.1 :: g.2).Nodup) :
    t.IsRrobin g ∧ t.actives (g.1 :: g.2) = s.actives (g.1 :: g.2) ∧
      t.dealOrder (g.1 :: g.2) = (s.dealOrder (g.1 :: g.2)).rotate (dealtBefore logs) ∧
      ∀ done log rest, logs = done ++ log :: rest →
        log.TakesTurns hdr (s.actives (g.1 :: g.2))
          ((s.actives (g.1 :: g.2)).idxOf (s.startStation (g.1 :: g.2)) + dealtBefore done) := by
  induction run with
  | nil => exact ⟨hrobin, rfl, (List.rotate_zero _).symm, fun done log rest h => by simp at h⟩
  | other run same ih =>
      obtain ⟨hrobin', hactives, horder, hall⟩ := ih
      refine ⟨⟨?_, ?_⟩, same.actives.trans hactives, same.dealOrder.trans horder, hall⟩
      · rw [Stations.isParallel, same.rrobin]
        exact hrobin'.1
      · rw [same.rrobin]
        exact hrobin'.2
  | @pass logs t w run gs listIn eventsTry ntemps batch nonempty room conduct ih =>
      obtain ⟨hrobin', hactives, horder, hall⟩ := ih
      obtain ⟨u, writes, hu, hdeals, hstations, hlists⟩ := conduct_rrobin hdr
        nevents select hrobin' (hactives ▸ hne) hnodup gs listIn eventsTry
        ntemps nonempty room
      obtain rfl : u = w := Option.some.inj (hu.symm.trans conduct)
      refine ⟨?_, ?_, ?_, fun done log rest hsplit => ?_⟩
      · rw [hstations]
        exact hrobin'
      · rw [hstations]
        exact hactives
      · rw [hstations, dealOrder_markLast (hactives ▸ hne) hnodup
          (List.length_pos_iff.mpr nonempty), horder, List.rotate_rotate]
        unfold dealtBefore
        simp
      · rcases List.eq_nil_or_concat rest with rfl | ⟨rest, last, rfl⟩
        · -- the batch that has just been dealt out
          obtain ⟨rfl, hlast⟩ := List.append_inj' hsplit rfl
          obtain rfl := List.singleton_inj.mp hlast
          rw [horder, dealOrder_eq_rotate hne, List.rotate_rotate] at hdeals
          refine ⟨fun i ps hi => ?_, fun ps hps => ?_⟩
          · dsimp only
            rw [hlists, hdeals.written_eq hi]
            exact putInto_llistWrite ..
          · dsimp only
            rw [hlists, hdeals.written_of_notMem (by rwa [List.mem_rotate]), llistWrite_nil]
        · rw [List.concat_eq_append, ← List.cons_append, ← List.append_assoc] at hsplit
          obtain ⟨hsplit, -⟩ := List.append_inj' hsplit rfl
          exact hall done log rest hsplit

end Run

/-! ### A member leaves the group -/

section Remove

variable {s : Stations} {us vs : List Group} {hd ps : ℕ} {xs ys : List ℕ}

/-- At most one member of the group is marked, as after every round. -/
def Stations.OneMark (s : Stations) (members : List ℕ) : Prop :=
  ∀ a ∈ members, ∀ b ∈ members, s.waslast a = true → s.waslast b = true → a = b

/-- The round that has just been dealt out has marked one member. -/
theorem TurnRun.oneMark {hdr : ℕ → EventHeader} {nevents : ℕ} {select : ℕ → ℕ → Bool}
    {t : Stations} {g : Group} {logs : List PassLog}
    (run : TurnRun hdr nevents select g s logs t) (hrobin : s.IsRrobin g)
    (hne : s.actives (g.1 :: g.2) ≠ []) (hnodup : (g.1 :: g.2).Nodup) (hlogs : logs ≠ []) :
    t.OneMark (g.1 :: g.2) := by
  induction run with
  | nil => exact absurd rfl hlogs
  | other run same ih =>
      intro a ha b hb hwa hwb
      rw [same.waslast a ha] at hwa
      rw [same.waslast b hb] at hwb
      exact ih hlogs a ha b hb hwa hwb
  | pass run gs listIn eventsTry ntemps batch nonempty room conduct ih =>
      obtain ⟨hrobin', hactives, -, -⟩ := run.takesTurns hrobin hne hnodup
      obtain ⟨u, -, hu, -, hstations, -⟩ := conduct_rrobin hdr nevents
        select hrobin' (hactives ▸ hne) hnodup gs listIn eventsTry ntemps nonempty room
      obtain rfl := Option.some.inj (hu.symm.trans conduct)
      rw [hstations]
      intro a ha b hb hwa hwb
      unfold Stations.markLast at hwa hwb
      dsimp only at hwa hwb
      rw [if_pos ha, decide_eq_true_eq] at hwa
      rw [if_pos hb, decide_eq_true_eq] at hwb
      exact Option.some.inj (hwa.symm.trans hwb)

/-- **The flag of a station that leaves its group** is handed to the one before it. -/
theorem waslast_stationRemove (hpar : s.isParallel ps = true) (hprev : s.prev ps = none) :
    (final (stationRemove ps) s).waslast =
      if s.waslast ps = true then assign s.waslast (s.prevparallel ps) true else s.waslast := by
  unfold stationRemove unlinkMember
  simp only [final_bind, value_get, final_get, hpar, if_true, hprev, ne_eq, not_true_eq_false,
    if_false]
  unfold StoreProgram.Prog.when
  by_cases hnext : s.nextparallel ps = none
  · by_cases hlast : s.waslast ps = true
    · simp [hnext, hlast]
    · simp [hnext, hlast]
  · by_cases hlast : s.waslast ps = true
    · simp [hnext, hlast]
    · simp [hnext, hlast]

theorem actives_filter (s : Stations) (p : ℕ → Bool) (members : List ℕ) :
    s.actives (members.filter p) = (s.actives members).filter p := List.filter_comm ..

/-- Nobody who could have been the last one served is passed over: the flags of those that stay
are as they were. -/
theorem dealOrder_filter {t : Stations} {members : List ℕ} (hstatus : t.status = s.status)
    (hwaslast : t.waslast = s.waslast) (hnot : s.waslast ps = false) (hnodup : members.Nodup)
    (hone : s.OneMark members) (hne : s.actives (members.filter (· ≠ ps)) ≠ []) :
    t.dealOrder (members.filter (· ≠ ps)) = (s.dealOrder members).filter (· ≠ ps) := by
  have hactives : ∀ xs, t.actives xs = s.actives xs := fun xs => by
    unfold Stations.actives
    rw [hstatus]
  have hne' : s.actives members ≠ [] := fun h => hne (by rw [actives_filter, h]; rfl)
  have hold := Stations.inTurn_dealOrder hne' hnodup
  have hnew := Stations.inTurn_dealOrder (s := t) ((hactives _).symm ▸ hne) (hnodup.filter _)
  by_cases hmark : ∃ last ∈ members, s.waslast last = true
  · obtain ⟨last, hmem, hlast⟩ := hmark
    have hps : last ≠ ps := fun h => by rw [h, hnot] at hlast; cases hlast
    obtain ⟨before, after, rfl, -⟩ := List.eq_append_cons_of_mem hmem
    have hothers : ∀ r ∈ before ++ after, s.waslast r = false := by
      intro r hr
      by_contra hr'
      rw [Bool.not_eq_false] at hr'
      have heq := hone r (((List.sublist_cons_self last after).append_left before).subset hr) last
        hmem hr' hlast
      rw [List.nodup_middle, List.nodup_cons] at hnodup
      exact hnodup.1 (heq ▸ hr)
    have hsplit : (before ++ last :: after).filter (· ≠ ps) =
        before.filter (· ≠ ps) ++ last :: after.filter (· ≠ ps) := by
      rw [List.filter_append, List.filter_cons, if_pos (decide_eq_true hps)]
    rw [hold.behind before last after rfl hlast hothers,
      hnew.behind (before.filter (· ≠ ps)) last (after.filter (· ≠ ps)) hsplit
        (hwaslast ▸ hlast) fun r hr => ?_, hactives, ← actives_filter]
    · congr 1
      rw [List.filter_append, List.filter_append, List.filter_singleton,
        decide_eq_true hps]
      rfl
    · rw [← List.filter_append] at hr
      rw [hwaslast]
      exact hothers r (List.mem_filter.mp hr).1
  · have hnone : ∀ r ∈ members, s.waslast r = false := fun r hr => by
      by_contra hr'
      exact hmark ⟨r, hr, by rwa [Bool.not_eq_false] at hr'⟩
    rw [hold.first hnone, hnew.first fun r hr => ?_, hactives, actives_filter]
    rw [hwaslast]
    exact hnone r (List.mem_filter.mp hr).1

/-- The last one served leaves, and the one before it is marked instead. -/
theorem dealOrder_handed {t : Stations} {before after : List ℕ} {previous : ℕ}
    (hstatus : t.status = s.status) (hwaslast : t.waslast = Function.update s.waslast previous true)
    (hlast : s.waslast ps = true) (hnodup : (before ++ [previous] ++ ps :: after).Nodup)
    (hone : s.OneMark (before ++ [previous] ++ ps :: after))
    (hne : s.actives (before ++ [previous] ++ after) ≠ []) :
    t.OneMark (before ++ [previous] ++ after) ∧
      t.dealOrder (before ++ [previous] ++ after) =
        (s.dealOrder (before ++ [previous] ++ ps :: after)).filter (· ≠ ps) := by
  have hactives : ∀ xs, t.actives xs = s.actives xs := fun xs => by
    unfold Stations.actives
    rw [hstatus]
  have hsub := (List.sublist_cons_self ps after).append_left (before ++ [previous])
  have hmem : ps ∈ before ++ [previous] ++ ps :: after := by simp
  have hnot := hnodup
  rw [List.nodup_middle, List.nodup_cons] at hnot
  have hothers : ∀ r ∈ before ++ [previous] ++ after, s.waslast r = false := by
    intro r hr
    by_contra hr'
    rw [Bool.not_eq_false] at hr'
    exact hnot.1 (hone r (hsub.subset hr) ps hmem hr' hlast ▸ hr)
  have hmarks : ∀ r ∈ before ++ [previous] ++ after, t.waslast r = true → r = previous := by
    intro r hr hr'
    by_contra hrp
    rw [hwaslast, Function.update_of_ne hrp, hothers r hr] at hr'
    cases hr'
  have hne' : s.actives (before ++ [previous] ++ ps :: after) ≠ [] := fun h => hne (by
    have hsub' : (s.actives (before ++ [previous] ++ after)).Sublist
        (s.actives (before ++ [previous] ++ ps :: after)) := hsub.filter _
    rwa [h, List.sublist_nil] at hsub')
  have hold := Stations.inTurn_dealOrder hne' hnodup
  have hnew := Stations.inTurn_dealOrder (s := t) ((hactives _).symm ▸ hne) (hsub.nodup hnodup)
  refine ⟨fun a ha b hb hwa hwb => (hmarks a ha hwa).trans (hmarks b hb hwb).symm, ?_⟩
  have hprevious : previous ∉ before ++ after := by
    have := hnot.2
    rw [List.append_assoc, List.singleton_append, List.nodup_middle, List.nodup_cons] at this
    exact this.1
  rw [hold.behind (before ++ [previous]) ps after rfl hlast hothers,
    hnew.behind before previous after (by simp) (by rw [hwaslast, Function.update_self])
      fun r hr => ?_, hactives, ← actives_filter]
  · congr 1
    have hstay : ∀ r ∈ after ++ before ++ [previous], decide (r ≠ ps) = true := fun r hr => by
      refine decide_eq_true fun h => hnot.1 (h ▸ ?_)
      simp only [List.mem_append] at hr ⊢
      tauto
    rw [← List.append_assoc after, List.filter_append, List.filter_eq_self.mpr hstay]
    simp
  · by_contra hr'
    rw [Bool.not_eq_false] at hr'
    have hin : r ∈ before ++ [previous] ++ after := by
      simp only [List.mem_append] at hr ⊢
      tauto
    exact hprevious (hmarks r hin hr' ▸ hr)

/-- **Those that are left take turns as they would have.** -/
theorem dealOrder_stationRemove (h : ChainOk s (us ++ (hd, xs ++ ps :: ys) :: vs))
    (hne : s.actives (hd :: xs ++ ys) ≠ []) (hone : s.OneMark (hd :: xs ++ ps :: ys)) :
    ChainOk (final (stationRemove ps) s) (us ++ (hd, xs ++ ys) :: vs) ∧
      (final (stationRemove ps) s).OneMark (hd :: xs ++ ys) ∧
      (final (stationRemove ps) s).dealOrder (hd :: xs ++ ys) =
        (s.dealOrder (hd :: xs ++ ps :: ys)).filter (· ≠ ps) := by
  have hus : us ≠ [] := by
    rintro rfl
    have := h.gc
    simp at this
  have hthis : (hd, xs ++ ps :: ys) ∈ us ++ (hd, xs ++ ps :: ys) :: vs :=
    List.mem_append_right _ List.mem_cons_self
  have hpar := (h.compat _ hthis (by simp) ps (by simp)).1
  have hprev := (h.sub _ hthis ps (by simp)).1
  have hseg : Seg s.nextparallel s.prevparallel none ((hd :: xs) ++ ps :: ys) none :=
    h.group _ hthis
  have hnodup : ((hd :: xs) ++ ps :: ys).Nodup := by
    have hnd := h.nodup
    rw [members_append, members_cons, ← List.cons_append, List.nodup_append,
      List.nodup_append] at hnd
    exact hnd.2.1.1
  obtain ⟨-, hchain, hlinks, -⟩ := wp_stationRemove h (.member hus)
  have hwaslast := waslast_stationRemove hpar hprev
  have hstatus := hlinks.status
  refine ⟨hchain, ?_⟩
  by_cases hlast : s.waslast ps = true
  · -- the last one served leaves
    obtain ⟨before, previous, hbefore⟩ : ∃ before previous, hd :: xs = before ++ [previous] :=
      ⟨_, _, (List.dropLast_append_getLast (List.cons_ne_nil hd xs)).symm⟩
    rw [if_pos hlast, hseg.links.1, hbefore, List.getLast?_concat, Option.some_or,
      assign_some] at hwaslast
    rw [hbefore] at hnodup hone hne ⊢
    exact dealOrder_handed hstatus hwaslast hlast hnodup hone hne
  · rw [if_neg hlast] at hwaslast
    rw [Bool.not_eq_true] at hlast
    have hnot := hnodup
    rw [List.nodup_middle, List.nodup_cons] at hnot
    have hstay : ((hd :: xs) ++ ps :: ys).filter (· ≠ ps) = hd :: xs ++ ys := by
      have hkeep : ∀ r ∈ hd :: xs ++ ys, decide (r ≠ ps) = true := fun r hr =>
        decide_eq_true fun heq => hnot.1 (heq ▸ hr)
      conv_rhs => rw [← List.filter_eq_self.mpr hkeep]
      rw [List.filter_append, List.filter_append, List.filter_cons_of_neg (a := ps) (by simp)]
    refine ⟨fun a ha b hb hwa hwb => ?_, ?_⟩
    · rw [hwaslast] at hwa hwb
      have hsub := (List.sublist_cons_self ps ys).append_left (hd :: xs)
      exact hone a (hsub.subset ha) b (hsub.subset hb) hwa hwb
    · have hfilter := dealOrder_filter hstatus hwaslast hlast hnodup hone (hstay ▸ hne)
      rwa [hstay] at hfilter

end Remove

/-! ### Fairness -/

/-- **Round-robin is fair from batch to batch.**  In every run the events that are ever dealt out
go to the active members in turn, beginning with the one that gets the first; no pass fails, and
at most one member is marked.  And when a member other than the head is taken out, those that are
left are dealt to as they would have been: beginning behind the last one served. -/
theorem roundRobin_fair (hdr : ℕ → EventHeader) (nevents : ℕ) (select : ℕ → ℕ → Bool) :
    (∀ (g : Group) (s t : Stations) (logs : List PassLog), s.IsRrobin g →
      s.actives (g.1 :: g.2) ≠ [] → (g.1 :: g.2).Nodup → TurnRun hdr nevents select g s logs t →
        (∀ done log rest, logs = done ++ log :: rest →
          log.TakesTurns hdr (s.actives (g.1 :: g.2))
            ((s.actives (g.1 :: g.2)).idxOf (s.startStation (g.1 :: g.2)) + dealtBefore done)) ∧
        (logs ≠ [] → t.OneMark (g.1 :: g.2)) ∧
        ∀ (gs : List Group) (listIn : ℕ → List ℕ) (eventsTry : ℕ → ℕ) (ntemps : ℤ)
          (batch : List ℕ), batch ≠ [] → (∀ ps, (listIn ps).length + batch.length ≤ nevents) →
            (Pass.conduct hdr nevents select (g :: gs)
              ⟨t, listIn, eventsTry, ntemps, batch.map (·, false), batch.length, true⟩).isSome) ∧
    ∀ (s : Stations) (us vs : List Group) (hd ps : ℕ) (xs ys : List ℕ),
      ChainOk s (us ++ (hd, xs ++ ps :: ys) :: vs) → s.actives (hd :: xs ++ ys) ≠ [] →
      s.OneMark (hd :: xs ++ ps :: ys) →
        ChainOk (final (stationRemove ps) s) (us ++ (hd, xs ++ ys) :: vs) ∧
        (final (stationRemove ps) s).OneMark (hd :: xs ++ ys) ∧
        (final (stationRemove ps) s).dealOrder (hd :: xs ++ ys) =
          (s.dealOrder (hd :: xs ++ ps :: ys)).filter (· ≠ ps) ∧
        ∀ before last after, hd :: xs ++ ps :: ys = before ++ last :: after →
          s.waslast last = true →
            (final (stationRemove ps) s).dealOrder (hd :: xs ++ ys) =
              s.actives ((after ++ before ++ [last]).filter (· ≠ ps)) := by
  refine ⟨fun g s t logs hrobin hne hnodup run => ?_, fun s us vs hd ps xs ys h hne hone => ?_⟩
  · obtain ⟨hrobin', hactives, -, hall⟩ := run.takesTurns hrobin hne hnodup
    refine ⟨hall, run.oneMark hrobin hne hnodup,
      fun gs listIn eventsTry ntemps batch hbatch hroom => ?_⟩
    obtain ⟨w, -, hw, -⟩ := conduct_rrobin hdr nevents select
      hrobin' (hactives ▸ hne) hnodup gs listIn eventsTry ntemps hbatch hroom
    rw [hw]
    rfl
  · obtain ⟨hchain, hmark, horder⟩ := dealOrder_stationRemove h hne hone
    refine ⟨hchain, hmark, horder, fun before last after hsplit hlast => ?_⟩
    have hnodup : (hd :: xs ++ ps :: ys).Nodup := by
      have hnd := h.nodup
      rw [members_append, members_cons, ← List.cons_append, List.nodup_append,
        List.nodup_append] at hnd
      exact hnd.2.1.1
    have hne' : s.actives (hd :: xs ++ ps :: ys) ≠ [] := fun hnil => hne (by
      have hsub : (s.actives (hd :: xs ++ ys)).Sublist (s.actives (hd :: xs ++ ps :: ys)) :=
        ((List.sublist_cons_self ps ys).append_left (hd :: xs)).filter _
      rwa [hnil, List.sublist_nil] at hsub)
    rw [horder, actives_filter, (Stations.inTurn_dealOrder hne' hnodup).behind before last after
      hsplit hlast fun r hr => ?_]
    by_contra hr'
    rw [Bool.not_eq_false] at hr'
    have hin : ∀ a, a ∈ before ++ last :: after → a ∈ hd :: xs ++ ps :: ys := fun a ha =>
      hsplit ▸ ha
    have heq := hone r (hin r (((List.sublist_cons_self last after).append_left before).subset hr))
      last (hin last (by simp)) hr' hlast
    rw [hsplit, List.nodup_middle, List.nodup_cons] at hnodup
    exact hnodup.1 (heq ▸ hr)

/-- Three active members, of which the second got the last event. -/
def trio : Stations :=
  { Stations.blank with
    config := fun ps => if ps = 0 then .default else
      { StatConfig.default with flowMode := .parallel, selectMode := .rrobin }
    status := fun _ => .active
    next := fun ps => if ps = 0 then some 1 else none
    prev := fun ps => if ps = 1 then some 0 else none
    nextparallel := fun ps => if ps = 1 then some 2 else if ps = 2 then some 3 else none
    prevparallel := fun ps => if ps = 2 then some 1 else if ps = 3 then some 2 else none
    statTail := some 1
    waslast := fun ps => ps = 2 }

/-- Two batches to the three members; and then the second member leaves. -/
theorem roundRobin_fair_example :
    (∃ logs t, TurnRun (fun _ => .init) 5 (fun _ _ => true) (1, [2, 3]) trio logs t ∧
      logs.map PassLog.batch = [[10, 11], [12]] ∧
      ∀ done log rest, logs = done ++ log :: rest →
        log.TakesTurns (fun _ => .init) [1, 2, 3] (2 + dealtBefore done)) ∧
    (final (stationRemove 2) trio).dealOrder [1, 3] = [3, 1] := by
  have hchain : ChainOk trio [(0, []), (1, [2, 3])] := by
    refine ⟨rfl, ⟨rfl, rfl, rfl, rfl, trivial⟩, rfl, fun g hg => ?_, fun g hg => ?_,
      fun g hg => ?_, by decide⟩
    all_goals
      simp only [List.mem_cons, List.not_mem_nil, or_false] at hg
      rcases hg with rfl | rfl
    · exact ⟨rfl, rfl, trivial⟩
    · exact ⟨rfl, rfl, rfl, rfl, rfl, rfl, trivial⟩
    · exact fun i hi => absurd hi (by simp)
    · decide
    · exact fun h => absurd rfl h
    · decide
  have hactive : trio.actives [1, 2, 3] ≠ [] := by decide
  have hrobin : trio.IsRrobin (1, [2, 3]) := ⟨by decide, by decide⟩
  obtain ⟨hturns, hremove⟩ := roundRobin_fair (fun _ => .init) 5 fun _ _ => true
  refine ⟨?_, ?_⟩
  · obtain ⟨-, -, hgo⟩ := hturns (1, [2, 3]) trio trio [] hrobin hactive (by decide) .nil
    obtain ⟨w, hw⟩ := Option.isSome_iff_exists.mp
      (hgo [] (fun _ => []) (fun _ => 0) 0 [10, 11] (by decide) fun _ => by simp)
    have hrun := TurnRun.pass .nil [] (fun _ => []) (fun _ => 0) 0 [10, 11] (by decide)
      (fun _ => by simp) hw
    obtain ⟨-, -, hgo⟩ := hturns (1, [2, 3]) trio w.stations _ hrobin hactive (by decide) hrun
    obtain ⟨u, hu⟩ := Option.isSome_iff_exists.mp
      (hgo [] (fun _ => []) (fun _ => 0) 0 [12] (by decide) fun _ => by simp)
    have hrun' := TurnRun.pass hrun [] (fun _ => []) (fun _ => 0) 0 [12] (by decide)
      (fun _ => by simp) hu
    obtain ⟨hall, -, -⟩ := hturns (1, [2, 3]) trio u.stations _ hrobin hactive (by decide) hrun'
    exact ⟨_, _, hrun', rfl, hall⟩
  · obtain ⟨-, -, horder, -⟩ := hremove trio [(0, [])] [] 1 2 [] [3] hchain (by decide) (by
      intro a _ b _ ha hb
      exact (of_decide_eq_true ha).trans (of_decide_eq_true hb).symm)
    exact horder.trans (by decide)

end EventTransfer
