import EventTransfer.ConductorChain

/-!
# The prescale of the Java system

A blocking station with a prescale `n` is to get every `n`-th of the events that it selects.
A station with a selection method counts the events one by one (`prescaled`).  A station that
takes all events computes how many of a batch it is to get, and takes that many from the front
(`JavaStation.choose`).  Only `eventsTry` is kept from batch to batch.

* `JavaStation.accepts` — what a station gets of the batches that arrive.
* `prescale_paths_agree_iff` — both kinds of stations, and the stations of `et_conductor`, get
  the same events exactly when the prescale is 1 or every batch is as long as the prescale.
-/

namespace EventTransfer

/-! ## Every `n`-th event of a batch -/

section Turns

variable {n k i e : ℕ} {xs : List ℕ}

theorem mem_turns : e ∈ turns n k i xs ↔ ∃ j, xs[j]? = some e ∧ (k + j) % n = i := by
  unfold turns
  rw [List.mem_filterMap]
  constructor
  · rintro ⟨j, hj, hget⟩
    exact ⟨j, hget, of_decide_eq_true (List.mem_filter.mp hj).2⟩
  · rintro ⟨j, hget, hmod⟩
    have hlt : j < xs.length := (List.getElem?_eq_some_iff.mp hget).1
    exact ⟨j, List.mem_filter.mpr ⟨List.mem_range.mpr hlt, decide_eq_true hmod⟩, hget⟩

/-- Where no event is in two places, it has its turn where it is. -/
theorem getElem_mem_turns (hxs : xs.Nodup) {j : ℕ} (hj : j < xs.length) :
    xs[j] ∈ turns n k i xs ↔ (k + j) % n = i := by
  rw [mem_turns]
  constructor
  · rintro ⟨j', hget, hmod⟩
    obtain ⟨hj', heq⟩ := List.getElem?_eq_some_iff.mp hget
    rwa [hxs.getElem_inj_iff.mp heq] at hmod
  · intro hmod
    exact ⟨j, List.getElem?_eq_getElem hj, hmod⟩

theorem getElem_mem_take (hxs : xs.Nodup) {j m : ℕ} (hj : j < xs.length) :
    xs[j] ∈ xs.take m ↔ j < m := by
  rw [List.mem_take_iff_getElem]
  constructor
  · rintro ⟨j', hj', heq⟩
    have hsame : j' = j := hxs.getElem_inj_iff.mp heq
    omega
  · intro hlt
    exact ⟨j, by omega, rfl⟩

/-- **When the first events of a batch are the right ones**, for a station that has tried a
multiple of `n` events before. -/
theorem take_eq_turns_iff (hn : 1 < n) (hxs : xs.Nodup) (hk : k % n = 0) :
    xs.take ((k + xs.length) / n - k / n) = turns n k 0 xs ↔ xs = [] ∨ xs.length = n := by
  have hcount : (k + xs.length) / n - k / n = xs.length / n := by
    have hdiv : (k + xs.length) / n = k / n + xs.length / n :=
      Nat.add_div_of_dvd_right (Nat.dvd_of_mod_eq_zero hk)
    rw [hdiv, Nat.add_sub_cancel_left]
  have hturn : ∀ j, (k + j) % n = j % n := by
    intro j
    rw [Nat.add_mod, hk, Nat.zero_add, Nat.mod_mod]
  rw [hcount]
  constructor
  · intro heq
    have hmem : ∀ j (_ : j < xs.length), j < xs.length / n ↔ j % n = 0 := by
      intro j hj
      rw [← getElem_mem_take hxs hj, heq, getElem_mem_turns hxs hj, hturn]
    rcases Nat.eq_zero_or_pos xs.length with hzero | hpos
    · exact .inl (List.length_eq_zero_iff.mp hzero)
    · -- the first event has its turn, the second has not, and the one after `n` events has
      have hfirst : 0 < xs.length / n := (hmem 0 hpos).mpr (Nat.zero_mod n)
      have hle : n ≤ xs.length := (Nat.div_pos_iff.mp hfirst).2
      have hsecond : ¬ 1 < xs.length / n := by
        intro hlt
        have hone := (hmem 1 (by omega)).mp hlt
        rw [Nat.mod_eq_of_lt hn] at hone
        exact absurd hone (by decide)
      refine .inr (le_antisymm ?_ hle)
      by_contra hlong
      have hnext := (hmem n (by omega)).mpr (Nat.mod_self n)
      omega
  · rintro (rfl | hlen)
    · exact List.take_nil
    · obtain ⟨e, rest, rfl⟩ : ∃ e rest, xs = e :: rest :=
        List.exists_cons_of_length_pos (by omega)
      have hnone : turns n (k + 1) 0 rest = [] := by
        rw [List.eq_nil_iff_forall_not_mem]
        intro x hx
        obtain ⟨j, hget, hmod⟩ := mem_turns.mp hx
        obtain ⟨hj, -⟩ := List.getElem?_eq_some_iff.mp hget
        rw [Nat.add_assoc, hturn, Nat.mod_eq_of_lt (by rw [List.length_cons] at hlen; omega)] at hmod
        omega
      rw [hlen, Nat.div_self (by omega), turns_cons, if_pos hk, hnone]
      rfl

end Turns

/-! ## Batches one after another -/

/-- **What a station gets of the batches that arrive**, of each of them, if it has tried
`eventsTry` events before.  In between its input list may change. -/
def JavaStation.accepts (stat : JavaStation) (p : ℕ → Bool) :
    ℕ → List (List ℕ) → List (List ℕ)
  | _, [] => []
  | eventsTry, getList :: rest =>
      let r := { stat with eventsTry := eventsTry }.choose p getList
      r.1 :: stat.accepts p r.2.2 rest

/-- The same for a station of `et_conductor` that takes all events.  It also matters whether
`firstimethruloop` is set. -/
def Pass.accepts (w : Pass) (ps : ℕ) : ℕ → List (Bool × List ℕ) → List (List ℕ)
  | _, [] => []
  | eventsTry, (first, events) :: rest =>
      let r := { w with
        eventsTry := Function.update w.eventsTry ps eventsTry
        batch := events.map (·, false)
        eventsLeft := events.length
        firstimethruloop := first }.takeAll ps
      r.1 :: w.accepts ps (r.2.eventsTry ps) rest

/-- **Every `n`-th event of each batch**, counted from batch to batch. -/
def turnsOfEach (n : ℕ) : ℕ → List (List ℕ) → List (List ℕ)
  | _, [] => []
  | k, batch :: rest => turns n k 0 batch :: turnsOfEach n (k + batch.length) rest

theorem flatten_turnsOfEach (n k : ℕ) (batches : List (List ℕ)) :
    (turnsOfEach n k batches).flatten = turns n k 0 batches.flatten := by
  induction batches generalizing k with
  | nil => rfl
  | cons batch rest ih =>
      rw [turnsOfEach, List.flatten_cons, List.flatten_cons, ih, turns_append]

theorem everyNth_zero (n : ℕ) (xs : List ℕ) : everyNth n 0 xs = turns n 0 0 xs := by
  unfold everyNth turns
  simp only [Nat.zero_add]

/-- A station that selects every event gets them. -/
theorem JavaStation.accepts_select {stat : JavaStation} (hblock : stat.blockMode = .blocking)
    (hmode : stat.selectMode ≠ .all) {p : ℕ → Bool} (hp : ∀ event, p event = true)
    (eventsTry : ℕ) (batches : List (List ℕ)) :
    stat.accepts p eventsTry batches = turnsOfEach stat.prescale eventsTry batches := by
  induction batches generalizing eventsTry with
  | nil => rfl
  | cons batch rest ih =>
      have hchoose : { stat with eventsTry := eventsTry }.choose p batch =
          prescaled p stat.prescale eventsTry batch := by
        unfold JavaStation.choose
        dsimp only
        rw [hblock]
        rcases hsel : stat.selectMode <;> first | rfl | exact absurd hsel hmode
      have hall : batch.filter p = batch := List.filter_eq_self.mpr fun event _ => hp event
      obtain ⟨htaken, htry⟩ := prescaled_fst p stat.prescale eventsTry batch
      rw [hall] at htaken htry
      rw [JavaStation.accepts, hchoose, htaken, htry, ih]
      rfl

theorem map_fst_unput (events : List ℕ) :
    (events.map (·, false)).map Prod.fst = events := by
  rw [List.map_map]
  exact List.map_id events

/-- A station of `et_conductor` gets them, whether it is the first one or not. -/
theorem Pass.accepts_eq (w : Pass) (ps eventsTry : ℕ) (passes : List (Bool × List ℕ)) :
    w.accepts ps eventsTry passes =
      turnsOfEach (w.stations.config ps).prescale.toNat eventsTry (passes.map Prod.snd) := by
  induction passes generalizing eventsTry with
  | nil => rfl
  | cons pass rest ih =>
      obtain ⟨first, events⟩ := pass
      rw [Pass.accepts, Pass.takeAll, List.map_cons, turnsOfEach]
      dsimp only
      rw [Function.update_self]
      by_cases hdump : first = true ∧ (w.stations.config ps).prescale.toNat = 1
      · rw [if_pos hdump]
        dsimp only
        rw [Function.update_self, ih, hdump.2, turns_one, List.length_map, map_fst_unput]
      · obtain ⟨htaken, -, htry⟩ := takePrescaled_eq (fun _ => true)
          (w.stations.config ps).prescale.toNat eventsTry (events.map (·, false))
        obtain ⟨hfst, hcount⟩ := prescaled_fst (fun _ => true)
          (w.stations.config ps).prescale.toNat eventsTry events
        have hall : events.filter (fun _ => true) = events := List.filter_true events
        rw [unput_map] at htaken htry
        rw [hall] at hfst hcount
        rw [if_neg hdump]
        dsimp only
        rw [Function.update_self, ih, htaken, htry, hfst, hcount]

/-! ## A station that takes all events -/

section SelectAll

variable {stat : JavaStation} (hblock : stat.blockMode = .blocking) (hmode : stat.selectMode = .all)
include hblock hmode

/-- What it takes of one batch. -/
theorem JavaStation.choose_all (p : ℕ → Bool) (k : ℕ) (batch : List ℕ) :
    ({ stat with eventsTry := k }.choose p batch).1 =
        batch.take ((k + batch.length) / stat.prescale - k / stat.prescale) ∧
      ({ stat with eventsTry := k }.choose p batch).2.2 = k + batch.length := by
  unfold JavaStation.choose
  dsimp only
  rw [hblock, hmode]
  dsimp only
  refine ⟨?_, rfl⟩
  by_cases hone : stat.prescale = 1
  · rw [if_pos hone, hone, Nat.div_one, Nat.div_one, Nat.add_sub_cancel_left]
  · rw [if_neg hone]

/-- **It takes every `n`-th event of each batch exactly when** `n` is 1 or the length of every
batch that is not empty. -/
theorem JavaStation.accepts_all_iff (p : ℕ → Bool) {k : ℕ} (hk : k % stat.prescale = 0)
    {batches : List (List ℕ)} (hnodup : ∀ batch ∈ batches, batch.Nodup) :
    stat.accepts p k batches = turnsOfEach stat.prescale k batches ↔
      stat.prescale = 1 ∨ ∀ batch ∈ batches, batch = [] ∨ batch.length = stat.prescale := by
  induction batches generalizing k with
  | nil => exact ⟨fun _ => .inr fun batch h => absurd h List.not_mem_nil, fun _ => rfl⟩
  | cons batch rest ih =>
      obtain ⟨htaken, htry⟩ := stat.choose_all hblock hmode p k batch
      have hrest : ∀ b ∈ rest, b.Nodup := fun b hb => hnodup b (List.mem_cons_of_mem batch hb)
      rw [JavaStation.accepts, turnsOfEach, htaken, htry, List.cons.injEq]
      rcases Nat.lt_or_eq_of_le stat.prescale_pos with hlt | hone
      · have hne : stat.prescale ≠ 1 := by omega
        have hstart : (batch = [] ∨ batch.length = stat.prescale) →
            (k + batch.length) % stat.prescale = 0 := by
          rintro (rfl | hlen)
          · exact hk
          · rw [hlen, Nat.add_mod_right, hk]
        rw [take_eq_turns_iff hlt (hnodup batch List.mem_cons_self) hk, or_iff_right hne]
        constructor
        · rintro ⟨hbatch, htail⟩ b hb
          have hall := (or_iff_right hne).mp ((ih (hstart hbatch) hrest).mp htail)
          rcases List.mem_cons.mp hb with rfl | hb
          · exact hbatch
          · exact hall b hb
        · intro hall
          have hbatch := hall batch List.mem_cons_self
          refine ⟨hbatch, (ih (hstart hbatch) hrest).mpr (.inr fun b hb => ?_)⟩
          exact hall b (List.mem_cons_of_mem batch hb)
      · have hone : stat.prescale = 1 := hone.symm
        have htail := (ih (k := k + batch.length) (by rw [hone, Nat.mod_one]) hrest).mpr (.inl hone)
        refine ⟨fun _ => .inl hone, fun _ => ⟨?_, htail⟩⟩
        rw [hone, turns_one, Nat.div_one, Nat.div_one, Nat.add_sub_cancel_left, List.take_length]

end SelectAll

/-! ## Both kinds of stations -/

/-- **The prescale does not depend on how a station selects**: a station that takes all events
gets of each batch what a station that selects every event gets, which is every `n`-th event
that arrives, beginning with the first one, and what a station of `et_conductor` gets. -/
structure PrescaleAgrees (stat : JavaStation) (mode : SelectMode) (w : Pass) (ps : ℕ)
    (passes : List (Bool × List ℕ)) : Prop where
  selector : { stat with selectMode := .all }.accepts (fun _ => true) 0 (passes.map Prod.snd) =
    { stat with selectMode := mode }.accepts (fun _ => true) 0 (passes.map Prod.snd)
  everyNth : ({ stat with selectMode := .all }.accepts (fun _ => true) 0
    (passes.map Prod.snd)).flatten = everyNth stat.prescale 0 (passes.map Prod.snd).flatten
  conductor : { stat with selectMode := .all }.accepts (fun _ => true) 0 (passes.map Prod.snd) =
    w.accepts ps 0 passes

/-- **Exactly when the prescale does not depend on how a station selects.** -/
theorem prescale_paths_agree_iff {stat : JavaStation} (hblock : stat.blockMode = .blocking)
    {mode : SelectMode} (hmode : mode ≠ .all) {w : Pass} {ps : ℕ}
    (hprescale : (w.stations.config ps).prescale = stat.prescale)
    {passes : List (Bool × List ℕ)} (hnodup : ∀ pass ∈ passes, pass.2.Nodup) :
    PrescaleAgrees stat mode w ps passes ↔
      stat.prescale = 1 ∨ ∀ pass ∈ passes, pass.2 = [] ∨ pass.2.length = stat.prescale := by
  have hselect := @JavaStation.accepts_select { stat with selectMode := mode } hblock hmode
    (fun _ => true) (fun _ => rfl) 0 (passes.map Prod.snd)
  have hconductor := w.accepts_eq ps 0 passes
  rw [hprescale, Int.toNat_natCast] at hconductor
  have hall := @JavaStation.accepts_all_iff { stat with selectMode := .all } hblock rfl
    (fun _ => true) 0 (Nat.zero_mod stat.prescale) (passes.map Prod.snd)
    (List.forall_mem_map.mpr hnodup)
  rw [List.forall_mem_map] at hall
  constructor
  · intro h
    exact hall.mp (h.selector.trans hselect)
  · intro h
    have heach := hall.mpr h
    refine ⟨heach.trans hselect.symm, ?_, heach.trans hconductor.symm⟩
    rw [heach, flatten_turnsOfEach, everyNth_zero]

/-- A blocking station with a prescale of `2`. -/
def JavaStation.everySecond : JavaStation where
  active := true
  selectMode := .all
  blockMode := .blocking
  prescale := 2
  cue := 10
  wasLast := false
  input := []
  eventsTry := 0
  prescale_pos := by decide

/-- The same for `et_conductor`. -/
def Pass.everySecond : Pass :=
  ⟨prescaledStation .blocking, fun _ => [], fun _ => 0, 0, [], 0, true⟩

/-- Two batches of two events. -/
theorem prescale_paths_agree_example :
    PrescaleAgrees .everySecond .user .everySecond 1 [(true, [10, 11]), (false, [12, 13])] :=
  (prescale_paths_agree_iff rfl (by decide) rfl (by decide)).mpr (by decide)

/-- Events that arrive one by one: the first one is not accepted, but the second. -/
theorem prescale_paths_differ :
    ¬ PrescaleAgrees .everySecond .user .everySecond 1 [(true, [10]), (true, [11])] := by
  intro h
  exact absurd h.selector (by decide)

end EventTransfer
