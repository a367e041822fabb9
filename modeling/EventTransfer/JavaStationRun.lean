import EventTransfer.JavaStationPlaces

/-!
# The Java stations over a whole run

A run is a sequence of requests, each of which may fail.  The stations that exist are those that
were created and have not been removed since.

* `WellPlaced` — every station that exists is in one place, GRAND_CENTRAL is the first, and no
  transfer lock is held.
* `StationRequest.Sound` — the condition on a request: a station that is moved has a place to go,
  nothing goes in front of GRAND_CENTRAL and GRAND_CENTRAL itself stays, and there is room for a
  station that is created.
* `javaStations_wellPlaced` — in a run of such requests the stations are in their places in every
  state that is reached, and what a request that fails leaves behind are the lists as they were.
-/

namespace EventTransfer

open StepRun

/-- The state of a run: the system, and the stations that exist. -/
structure StationState where
  sys : SystemCreate
  existing : Finset ℕ

/-- The stations that exist after a request. -/
def existingAfter (existing : Finset ℕ) :
    StationRequest → Except StationException ℕ → Finset ℕ
  | .createStation .., .ok s => insert s existing
  | .removeStation .., .ok s => existing.erase s
  | _, _ => existing

def StationState.serve (stationsMax : ℕ) (loads : JavaStationConfig → Bool)
    (state : StationState) (request : StationRequest) : StationState :=
  let r := state.sys.serve stationsMax loads request
  ⟨r.1, existingAfter state.existing request r.2⟩

/-- **Any sequence of requests**, from a new system on. -/
def stationMachine (stationsMax : ℕ) (loads : JavaStationConfig → Bool) :
    Machine StationState StationRequest :=
  .ofStep (· = ⟨.createGrandCentral, {0}⟩) fun state request =>
    some (state.serve stationsMax loads request)

/-- **The stations are in their places.** -/
structure WellPlaced (stationsMax : ℕ) (sys : SystemCreate) (existing : Finset ℕ) : Prop where
  heads : ∀ s ∈ sys.stations, sys.isParallel s = true → ∃ rest, sys.parallelStations s = s :: rest
  once : ∀ s, sys.walk.count s = if s ∈ existing then 1 else 0
  first : sys.stations.head? = some 0 ∧ sys.stationName 0 = "GRAND_CENTRAL"
  compatible : ∀ slot ∈ sys.slots, ∀ a ∈ slot.members, ∀ b ∈ slot.members, a ≠ b →
    compatibleParallelConfigs (sys.config a) (sys.config b) = true
  count : sys.stationCount = sys.walk.length
  limit : sys.stationCount ≤ stationsMax
  ids : ∀ a ∈ existing, ∀ b ∈ existing, sys.stationId a = sys.stationId b → a = b
  names : ∀ a ∈ existing, ∀ b ∈ existing, sys.stationName a = sys.stationName b → a = b
  unlocked : ∀ s, sys.stopTransferLock s = 0

/-- **Lists and positions are the same.** -/
structure SystemCreate.SamePlaces (existing : Finset ℕ) (sys sys' : SystemCreate) : Prop where
  stations : sys'.stations = sys.stations
  parallelStations : ∀ s ∈ existing, sys'.parallelStations s = sys.parallelStations s
  position : ∀ statId, sys'.getStationPosition statId = sys.getStationPosition statId
  parallelPosition : ∀ statId,
    sys'.getStationParallelPosition statId = sys.getStationParallelPosition statId

/-- **The condition on a request.**  A station that is created in a new place is not put in front
of all others, and counts with the members of groups.  GRAND_CENTRAL is not removed.  A station
that is moved may be put there, when the lists are without it; and nothing but GRAND_CENTRAL goes
to the front. -/
def StationRequest.Sound (stationsMax : ℕ) (loads : JavaStationConfig → Bool)
    (state : StationState) : StationRequest → Prop
  | .createStation config name position parallelPosition =>
      state.sys.stations.length < stationsMax → state.sys.stationNameToObject name = none →
        loads config = true → state.sys.Takes config position parallelPosition →
          state.sys.stationCount < stationsMax ∧
            (position = 0 → state.sys.stations.length < 2)
  | .removeStation statId attached => statId = 0 → attached = true
  | .setStationPosition statId position parallelPosition =>
      ∀ stat, state.sys.stationIdToObject statId = some stat →
        (state.sys.deleteStation stat).Takes (state.sys.config stat) position parallelPosition ∧
          if statId = 0 then
            (state.sys.deleteStation stat).stations = [] ∨
              position = 0 ∧ 2 ≤ (state.sys.deleteStation stat).stations.length
          else position = 0 → (state.sys.deleteStation stat).stations.length < 2

/-! ### Compatible configurations -/

theorem compatibleParallelConfigs_iff {group config : JavaStationConfig} :
    compatibleParallelConfigs group config = true ↔
      group.flowMode = .parallel ∧ config.flowMode = .parallel ∧
      (group.isSharing ∨ config.isSharing →
        group.selectMode = config.selectMode ∧ group.blockMode = config.blockMode ∧
          group.prescale = config.prescale) := by
  obtain ⟨gflow, _, gblock, gsel, _, gpre, _⟩ := group
  obtain ⟨cflow, _, cblock, csel, _, cpre, _⟩ := config
  simp only [compatibleParallelConfigs, JavaStationConfig.isSharing]
  cases gflow <;> cases cflow <;> cases gsel <;> cases csel <;> simp

theorem compatibleParallelConfigs_symm {a b : JavaStationConfig}
    (h : compatibleParallelConfigs a b = true) : compatibleParallelConfigs b a = true := by
  rw [compatibleParallelConfigs_iff] at h ⊢
  obtain ⟨ha, hb, hshare⟩ := h
  refine ⟨hb, ha, fun hs => ?_⟩
  obtain ⟨h1, h2, h3⟩ := hshare hs.symm
  exact ⟨h1.symm, h2.symm, h3.symm⟩

theorem compatibleParallelConfigs_trans {a b c : JavaStationConfig}
    (hab : compatibleParallelConfigs a b = true) (hbc : compatibleParallelConfigs b c = true) :
    compatibleParallelConfigs a c = true := by
  rw [compatibleParallelConfigs_iff] at hab hbc ⊢
  obtain ⟨ha, -, hshare⟩ := hab
  obtain ⟨-, hc, hshare'⟩ := hbc
  refine ⟨ha, hc, fun hs => ?_⟩
  have hb : b.isSharing := by
    rcases hs with hs | hs
    · rw [JavaStationConfig.isSharing, ← (hshare (.inl hs)).1]
      exact hs
    · rw [JavaStationConfig.isSharing, (hshare' (.inr hs)).1]
      exact hs
  obtain ⟨h1, h2, h3⟩ := hshare (.inr hb)
  obtain ⟨h1', h2', h3'⟩ := hshare' (.inl hb)
  exact ⟨h1.trans h1', h2.trans h2', h3.trans h3'⟩

/-! ### Locks and ids -/

namespace SystemCreate

theorem lockEach_apply (xs : List ℕ) (lock : ℕ → ℕ) (s : ℕ) :
    lockEach xs lock s = lock s + xs.count s := by
  induction xs generalizing lock with
  | nil => rfl
  | cons t xs ih =>
      rw [lockEach, ih, List.count_cons, Function.update_apply]
      by_cases h : t = s
      · subst h
        simp only [if_pos, beq_self_eq_true]
        omega
      · rw [if_neg (Ne.symm h), if_neg (by simpa using h)]
        rfl

theorem unlockEach_apply (xs : List ℕ) (lock : ℕ → ℕ) (s : ℕ) :
    unlockEach xs lock s = lock s - xs.count s := by
  induction xs generalizing lock with
  | nil => rfl
  | cons t xs ih =>
      rw [unlockEach, ih, List.count_cons, Function.update_apply]
      by_cases h : t = s
      · subst h
        simp only [if_pos, beq_self_eq_true]
        omega
      · rw [if_neg (Ne.symm h), if_neg (by simpa using h)]
        rfl

/-- **An id is free** as long as all stations are counted. -/
theorem unusedId_free {sys : SystemCreate} (hcount : sys.walk.length ≤ sys.stationCount) :
    ∀ s ∈ sys.walk, sys.stationId s ≠ sys.unusedId := by
  obtain ⟨i, hi, hfree⟩ : ∃ i < sys.stationCount + 1, ∀ s ∈ sys.walk, sys.stationId s ≠ i := by
    by_contra hno
    push Not at hno
    -- more ids than stations
    have hsub : (Finset.range (sys.stationCount + 1)).image (fun i : ℕ => (i : ℤ)) ⊆
        (sys.walk.map sys.stationId).toFinset := by
      intro j hj
      obtain ⟨i, hi, rfl⟩ := Finset.mem_image.mp hj
      obtain ⟨s, hs, hid⟩ := hno i (Finset.mem_range.mp hi)
      exact List.mem_toFinset.mpr (List.mem_map.mpr ⟨s, hs, hid⟩)
    have hcard := Finset.card_le_card hsub
    rw [Finset.card_image_of_injective _ Nat.cast_injective, Finset.card_range] at hcard
    have hlen := List.toFinset_card_le (sys.walk.map sys.stationId)
    rw [List.length_map] at hlen
    omega
  unfold unusedId
  dsimp only
  cases hfind : (List.range (sys.stationCount + 1)).find? fun i : ℕ =>
      decide (∀ s ∈ sys.walk, sys.stationId s ≠ i) with
  | none =>
      have hnone := List.find?_eq_none.mp hfind i (List.mem_range.mpr hi)
      exact absurd (decide_eq_true hfree) hnone
  | some j =>
      have hj := List.find?_some hfind
      exact of_decide_eq_true hj

/-- Where a station may be put is a matter of the main list. -/
theorem Takes.congr {sys sys' : SystemCreate} {config : JavaStationConfig}
    {position parallelPosition : ℤ} (h : sys.Takes config position parallelPosition)
    (hstations : sys'.stations = sys.stations)
    (hconfig : ∀ s ∈ sys.stations, sys'.config s = sys.config s) :
    sys'.Takes config position parallelPosition := by
  unfold Takes at h ⊢
  rw [hstations]
  rcases h with h | h | h | ⟨hpos, h⟩
  · exact .inl h
  · exact .inr (.inl h)
  · exact .inr (.inr (.inl h))
  · refine .inr (.inr (.inr ⟨hpos, fun stat hstat hflow hpar hhead => ?_⟩))
    have hsame := hconfig stat (List.mem_of_getElem? hstat)
    rw [hsame]
    refine h stat hstat hflow ?_ hhead
    rwa [isParallel, hsame] at hpar

end SystemCreate

/-! ### The stations of the places -/

/-- **The existing stations are those of the places**, once each. -/
structure Placed (sys : SystemCreate) (slots : List JavaSlot) (existing : Finset ℕ) : Prop where
  shows : sys.Shows slots
  nodup : (slots.flatMap JavaSlot.members).Nodup
  mem : ∀ s, s ∈ slots.flatMap JavaSlot.members ↔ s ∈ existing
  compatible : ∀ slot ∈ slots, ∀ a ∈ slot.members, ∀ b ∈ slot.members, a ≠ b →
    compatibleParallelConfigs (sys.config a) (sys.config b) = true

section Placed

variable {sys sys' : SystemCreate} {slots : List JavaSlot} {existing : Finset ℕ} {s : ℕ}

theorem Placed.count_walk (h : Placed sys slots existing) (s : ℕ) :
    sys.walk.count s = if s ∈ existing then 1 else 0 := by
  rw [h.shows.walk_eq]
  by_cases hs : s ∈ slots.flatMap JavaSlot.members
  · rw [List.count_eq_one_of_mem h.nodup hs, if_pos ((h.mem s).mp hs)]
  · rw [List.count_eq_zero_of_not_mem hs, if_neg fun hc => hs ((h.mem s).mpr hc)]

/-- The locks that are released are those of the existing stations. -/
theorem Placed.unlockAll_apply (h : Placed sys slots existing) (lock : ℕ → ℕ) (s : ℕ) :
    ({ sys with stopTransferLock := lock }.unlockAllStationTransferLocks).stopTransferLock s =
      lock s - if s ∈ existing then 1 else 0 := by
  rw [← h.count_walk s]
  exact SystemCreate.unlockEach_apply ..

theorem Placed.mem_of_stations (h : Placed sys slots existing) (hs : s ∈ sys.stations) :
    s ∈ existing := by
  rw [h.shows.stations] at hs
  obtain ⟨slot, hslot, rfl⟩ := List.mem_map.mp hs
  exact (h.mem _).mp (List.mem_flatMap.mpr ⟨slot, hslot, slot.head_mem⟩)

theorem Placed.mem_of_walk (h : Placed sys slots existing) (hs : s ∈ sys.walk) :
    s ∈ existing := by
  rw [h.shows.walk_eq] at hs
  exact (h.mem s).mp hs

theorem Placed.congr (h : Placed sys slots existing) (hstations : sys'.stations = sys.stations)
    (hgroups : ∀ s ∈ existing, sys'.parallelStations s = sys.parallelStations s)
    (hconfig : ∀ s ∈ existing, sys'.config s = sys.config s) : Placed sys' slots existing := by
  refine ⟨h.shows.congr hstations (fun s hs => hgroups s (h.mem_of_stations hs))
    fun s hs => hconfig s ((h.mem s).mp hs), h.nodup, h.mem, fun slot hslot a ha b hb hne => ?_⟩
  have hin : ∀ t ∈ slot.members, t ∈ existing := fun t ht =>
    (h.mem t).mp (List.mem_flatMap.mpr ⟨slot, hslot, ht⟩)
  rw [hconfig a (hin a ha), hconfig b (hin b hb)]
  exact h.compatible slot hslot a ha b hb hne

/-- A place without a station has no new members. -/
theorem JavaSlot.subset_of_without {slot slot' : JavaSlot} (h : slot' ∈ slot.without s) :
    slot'.members ⊆ slot.members := by
  cases slot with
  | serial t =>
      rw [without] at h
      split at h
      · cases h
      · rw [List.mem_singleton.mp h]
        exact List.Subset.refl _
  | group head rest =>
      rw [without] at h
      split at h
      · cases rest with
        | nil => cases h
        | cons next rest =>
            rw [List.mem_singleton.mp h]
            exact List.subset_cons_self head (next :: rest)
      · rw [List.mem_singleton.mp h]
        exact List.cons_subset_cons head List.erase_subset

/-- **All but one.** -/
theorem Placed.delete (h : Placed sys slots existing) (hs : s ∈ existing) :
    Placed (sys.deleteStation s) (slots.flatMap (JavaSlot.without s)) (existing.erase s) := by
  have hmem := (h.mem s).mpr hs
  have hperm := members_flatMap_without hmem h.nodup
  obtain ⟨hnot, hnodup⟩ := List.nodup_cons.mp (hperm.nodup_iff.mpr h.nodup)
  refine ⟨h.shows.deleteStation h.nodup hmem, hnodup, fun t => ?_,
    fun slot hslot a ha b hb hne => ?_⟩
  · rw [Finset.mem_erase, ← h.mem, ← hperm.mem_iff, List.mem_cons]
    constructor
    · intro ht
      exact ⟨fun hc => hnot (hc ▸ ht), .inr ht⟩
    · rintro ⟨hne, ht⟩
      exact ht.resolve_left hne
  · obtain ⟨slot', hslot', hin⟩ := List.mem_flatMap.mp hslot
    have hsub := JavaSlot.subset_of_without hin
    rw [SystemCreate.deleteStation_config]
    exact h.compatible slot' hslot' a (hsub ha) b (hsub hb) hne

/-- **One more.** -/
theorem Placed.insert (h : Placed sys slots existing) (hs : s ∉ existing)
    {position parallelPosition : ℤ}
    (hok : sys.insertStation s position parallelPosition = .ok sys') : ∃ slots',
    Placed sys' slots' (Insert.insert s existing) ∧
      sys.Inserted s (slots = [] ∨ position = 0 ∧ 2 ≤ slots.length) slots slots' := by
  have hnot : s ∉ slots.flatMap JavaSlot.members := fun hc => hs ((h.mem s).mp hc)
  obtain ⟨⟨slots', hshows, hput⟩, stations, groups, rfl⟩ :=
    h.shows.insertStation h.nodup hnot hok
  refine ⟨slots', ⟨hshows, hput.perm.nodup_iff.mpr (List.nodup_cons.mpr ⟨hnot, h.nodup⟩),
    fun t => ?_, ?_⟩, hput⟩
  · rw [hput.perm.mem_iff, List.mem_cons, Finset.mem_insert, h.mem]
  · intro slot hslot a ha b hb hne
    change compatibleParallelConfigs (sys.config a) (sys.config b) = true
    cases hput with
    | main before after =>
        rcases List.mem_append.mp hslot with hbefore | hrest
        · exact h.compatible slot (List.mem_append_left _ hbefore) a ha b hb hne
        · rcases List.mem_cons.mp hrest with rfl | hafter
          · rw [SystemCreate.alone_members, List.mem_singleton] at ha hb
            exact absurd (ha.trans hb.symm) hne
          · exact h.compatible slot (List.mem_append_right _ hafter) a ha b hb hne
    | member before head left right after hcompatible =>
        rcases List.mem_append.mp hslot with hbefore | hrest
        · exact h.compatible slot (List.mem_append_left _ hbefore) a ha b hb hne
        · rcases List.mem_cons.mp hrest with rfl | hafter
          · have hold := h.compatible _ (List.mem_append_right before List.mem_cons_self)
            -- whoever was in the group is compatible with its head, and so with the new one
            have hhead : ∀ t ∈ head :: (left ++ right),
                compatibleParallelConfigs (sys.config t) (sys.config s) = true := fun t ht => by
              by_cases hth : t = head
              · rw [hth]
                exact hcompatible
              · exact compatibleParallelConfigs_trans
                  (hold t ht head List.mem_cons_self hth) hcompatible
            have hsplit : ∀ t ∈ (JavaSlot.group head (left ++ s :: right)).members,
                t = s ∨ t ∈ head :: (left ++ right) := fun t ht => by
              simp only [JavaSlot.members, List.mem_cons, List.mem_append] at ht ⊢
              tauto
            rcases hsplit a ha with rfl | ha' <;> rcases hsplit b hb with rfl | hb'
            · exact absurd rfl hne
            · exact compatibleParallelConfigs_symm (hhead b hb')
            · exact hhead a ha'
            · exact hold a ha' b hb' hne
          · exact h.compatible slot (List.mem_append_right _ (List.mem_cons_of_mem _ hafter))
              a ha b hb hne

end Placed

/-! ### What every request keeps -/

/-- **The invariant**, with the places in view. -/
structure Kept (stationsMax : ℕ) (sys : SystemCreate) (slots : List JavaSlot)
    (existing : Finset ℕ) : Prop extends Placed sys slots existing where
  first : ∃ rest, slots = .serial 0 :: rest
  grandCentral : sys.stationId 0 = 0 ∧ sys.stationName 0 = "GRAND_CENTRAL"
  count : sys.stationCount = existing.card
  limit : sys.stationCount ≤ stationsMax
  ids : ∀ a ∈ existing, ∀ b ∈ existing, sys.stationId a = sys.stationId b → a = b
  names : ∀ a ∈ existing, ∀ b ∈ existing, sys.stationName a = sys.stationName b → a = b
  unlocked : ∀ s, sys.stopTransferLock s = 0
  fresh : ∀ s ∈ existing, s < sys.created

section Kept

variable {stationsMax : ℕ} {sys sys' : SystemCreate} {slots : List JavaSlot}
  {existing : Finset ℕ} {s : ℕ}

theorem Placed.length_walk (h : Placed sys slots existing) : sys.walk.length = existing.card := by
  rw [h.shows.walk_eq, ← List.toFinset_card_of_nodup h.nodup]
  congr 1
  ext s
  rw [List.mem_toFinset, h.mem]

theorem Kept.wellPlaced (h : Kept stationsMax sys slots existing) :
    WellPlaced stationsMax sys existing := by
  refine ⟨fun s hs hpar => ?_, h.count_walk, ⟨?_, h.grandCentral.2⟩, ?_, ?_, h.limit, h.ids,
    h.names, h.unlocked⟩
  · rw [h.shows.stations] at hs
    obtain ⟨slot, hslot, rfl⟩ := List.mem_map.mp hs
    have hshown := h.shows.shown slot hslot
    cases slot with
    | serial t => exact absurd (hshown.symm.trans hpar) Bool.false_ne_true
    | group head rest => exact ⟨rest, hshown.2.1⟩
  · obtain ⟨rest, hfirst⟩ := h.first
    rw [h.shows.stations, hfirst]
    rfl
  · rw [h.shows.slots_eq]
    exact h.compatible
  · rw [h.count, h.length_walk]

/-- A station that is found exists. -/
theorem Kept.mem_of_find {p : ℕ → Bool} (h : Kept stationsMax sys slots existing)
    (hfind : sys.walk.find? p = some s) : s ∈ existing ∧ p s = true :=
  ⟨h.mem_of_walk (List.mem_of_find?_eq_some hfind), List.find?_some hfind⟩

theorem Kept.zero_mem (h : Kept stationsMax sys slots existing) : 0 ∈ existing := by
  obtain ⟨rest, rfl⟩ := h.first
  exact (h.mem 0).mp (List.mem_flatMap.mpr ⟨_, List.mem_cons_self, List.mem_cons_self⟩)

theorem Kept.isParallel_zero (h : Kept stationsMax sys slots existing) :
    sys.isParallel 0 = false := by
  obtain ⟨rest, rfl⟩ := h.first
  exact h.shows.shown _ List.mem_cons_self

/-- **GRAND_CENTRAL stays in front** of a station that is not put there. -/
theorem SystemCreate.Inserted.first {front : Prop} {slots slots' rest : List JavaSlot}
    (h : sys.Inserted s front slots slots') (hslots : slots = .serial 0 :: rest)
    (hfront : ¬ front) : ∃ rest', slots' = .serial 0 :: rest' := by
  cases h with
  | main before after hiff =>
      cases before with
      | nil => exact absurd (hiff.mp rfl) hfront
      | cons slot before =>
          obtain ⟨rfl, -⟩ := List.cons.inj hslots
          exact ⟨_, rfl⟩
  | member before head left right after =>
      cases before with
      | nil => cases hslots
      | cons slot before =>
          obtain ⟨rfl, -⟩ := List.cons.inj hslots
          exact ⟨_, rfl⟩

/-- It comes back to the front when it is moved there. -/
theorem SystemCreate.Inserted.first_self {front : Prop} {slots slots' : List JavaSlot}
    (h : sys.Inserted 0 front slots slots') (hpar : sys.isParallel 0 = false) (hfront : front) :
    ∃ rest', slots' = .serial 0 :: rest' := by
  cases h with
  | main before after hiff =>
      obtain rfl := hiff.mpr hfront
      refine ⟨after, ?_⟩
      rw [alone, hpar]
      rfl
  | member before head left right after hcompatible =>
      obtain ⟨-, hflow, -⟩ := compatibleParallelConfigs_iff.mp hcompatible
      have htrue : sys.isParallel 0 = true := by simpa [SystemCreate.isParallel] using hflow
      exact absurd (hpar.symm.trans htrue) Bool.false_ne_true

theorem Kept.first_without (h : Kept stationsMax sys slots existing) (hs : s ≠ 0) :
    ∃ rest, slots.flatMap (JavaSlot.without s) = .serial 0 :: rest := by
  obtain ⟨rest, rfl⟩ := h.first
  refine ⟨rest.flatMap (JavaSlot.without s), ?_⟩
  rw [List.flatMap_cons, JavaSlot.without, if_neg (Ne.symm hs)]
  rfl

/-! ### Positions -/

theorem findIdx?_congr {α : Type} {p q : α → Bool} {xs : List α} (h : ∀ x ∈ xs, p x = q x) :
    xs.findIdx? p = xs.findIdx? q := by
  induction xs with
  | nil => rfl
  | cons x xs ih =>
      rw [List.findIdx?_cons, List.findIdx?_cons, h x List.mem_cons_self,
        ih fun y hy => h y (List.mem_cons_of_mem _ hy)]

theorem findIdx_congr {α : Type} {p q : α → Bool} {xs : List α} (h : ∀ x ∈ xs, p x = q x) :
    xs.findIdx p = xs.findIdx q := by
  induction xs with
  | nil => rfl
  | cons x xs ih =>
      rw [List.findIdx_cons, List.findIdx_cons, h x List.mem_cons_self,
        ih fun y hy => h y (List.mem_cons_of_mem _ hy)]

theorem SystemCreate.SamePlaces.refl (existing : Finset ℕ) (sys : SystemCreate) :
    sys.SamePlaces existing sys :=
  ⟨rfl, fun _ _ => rfl, fun _ => rfl, fun _ => rfl⟩

/-- **Positions** depend on the lists and on what the stations were constructed with. -/
theorem Placed.samePlaces (h : Placed sys slots existing) (hstations : sys'.stations = sys.stations)
    (hgroups : ∀ s ∈ existing, sys'.parallelStations s = sys.parallelStations s)
    (hconfig : ∀ s ∈ existing, sys'.config s = sys.config s)
    (hid : ∀ s ∈ existing, sys'.stationId s = sys.stationId s) :
    sys.SamePlaces existing sys' := by
  have hslots : sys'.slots = slots := (h.congr hstations hgroups hconfig).shows.slots_eq
  have hmem : ∀ slot ∈ slots, ∀ s ∈ slot.members, s ∈ existing := fun slot hslot s hs =>
    (h.mem s).mp (List.mem_flatMap.mpr ⟨slot, hslot, hs⟩)
  have hany : ∀ statId, ∀ slot ∈ slots,
      decide (∃ s ∈ slot.members, sys'.stationId s = statId) =
        decide (∃ s ∈ slot.members, sys.stationId s = statId) := fun statId slot hslot => by
    refine decide_eq_decide.mpr (exists_congr fun s => and_congr_right fun hs => ?_)
    rw [hid s (hmem slot hslot s hs)]
  refine ⟨hstations, hgroups, fun statId => ?_, fun statId => ?_⟩
  · unfold SystemCreate.getStationPosition
    rw [hslots, h.shows.slots_eq, findIdx?_congr (hany statId)]
  · unfold SystemCreate.getStationParallelPosition
    rw [hslots, h.shows.slots_eq, List.find?_congr (hany statId)]
    refine ite_congr rfl (fun _ => rfl) fun _ => ?_
    cases hfind : slots.find? fun slot =>
        decide (∃ s ∈ slot.members, sys.stationId s = statId) with
    | none => rfl
    | some slot =>
        have hslot := List.mem_of_find?_eq_some hfind
        have hids : ∀ s ∈ slot.members, decide (sys'.stationId s = statId) =
            decide (sys.stationId s = statId) := fun s hs => by rw [hid s (hmem slot hslot s hs)]
        rw [Option.map_some, Option.map_some, hid _ (hmem slot hslot _ slot.head_mem),
          findIdx_congr hids]

/-! ### The three requests -/

namespace SystemCreate

theorem removeFromGroup_lockAll (sys : SystemCreate) (s : ℕ) (heads : List ℕ)
    (groups : ℕ → List ℕ) : sys.lockAllStationTransferLocks.removeFromGroup s heads groups =
      sys.removeFromGroup s heads groups := by
  induction heads with
  | nil => rfl
  | cons t heads ih =>
      rw [removeFromGroup, removeFromGroup, ih]
      rfl

/-- Locks play no part in what becomes of the lists. -/
theorem deleteStation_lockAll (sys : SystemCreate) (s : ℕ) :
    sys.lockAllStationTransferLocks.deleteStation s =
      { sys.deleteStation s with stopTransferLock := lockEach sys.walk sys.stopTransferLock } := by
  have hpar : ∀ t, sys.lockAllStationTransferLocks.isParallel t = sys.isParallel t := fun _ => rfl
  unfold deleteStation
  by_cases hin : s ∈ sys.stations
  · rw [if_pos hin, if_pos (show s ∈ sys.lockAllStationTransferLocks.stations from hin)]
    dsimp only
    rw [hpar]
    split
    · rfl
    · have hgroup : sys.lockAllStationTransferLocks.parallelStations s =
          sys.parallelStations s := rfl
      rw [hgroup]
      cases (sys.parallelStations s).drop 1 <;> rfl
  · rw [if_neg hin, if_neg (show s ∉ sys.lockAllStationTransferLocks.stations from hin),
      removeFromGroup_lockAll]
    rfl

end SystemCreate

/-- **Removing a station.** -/
theorem Kept.removeStation (h : Kept stationsMax sys slots existing) {statId : ℤ} {attached : Bool}
    (hsound : statId = 0 → attached = true) :
    (∃ slots', Kept stationsMax (sys.removeStation statId attached).1 slots'
      (existingAfter existing (.removeStation statId attached)
        (sys.removeStation statId attached).2)) ∧
    ∀ e, (sys.removeStation statId attached).2 = .error e →
      sys.SamePlaces existing (sys.removeStation statId attached).1 := by
  unfold SystemCreate.removeStation
  cases hfind : sys.stationIdToObject statId with
  | none => exact ⟨⟨slots, h⟩, fun _ _ => .refl existing sys⟩
  | some stat =>
      obtain ⟨hstat, hid⟩ := h.mem_of_find hfind
      have hstatId : sys.stationId stat = statId := of_decide_eq_true hid
      dsimp only
      split
      case isTrue => exact ⟨⟨slots, h⟩, fun _ _ => .refl existing sys⟩
      case isFalse hattached =>
        refine ⟨⟨slots.flatMap (JavaSlot.without stat), ?_⟩, fun e he => by cases he⟩
        have hne : stat ≠ 0 := by
          rintro rfl
          exact hattached (hsound (hstatId.symm.trans h.grandCentral.1))
        have hdelete := h.toPlaced.delete hstat
        unfold SystemCreate.removeStationFromList
        rw [SystemCreate.deleteStation_lockAll]
        obtain ⟨stations, groups, heq⟩ := SystemCreate.deleteStation_frame sys stat
        rw [heq] at hdelete ⊢
        have hmem : ∀ t, t ∈ existing.erase stat → t ∈ existing := fun t =>
          Finset.mem_of_mem_erase
        refine ⟨hdelete.congr rfl (fun _ _ => rfl) fun _ _ => rfl, h.first_without hne,
          h.grandCentral, ?_, (Nat.sub_le _ _).trans h.limit,
          fun a ha b hb => h.ids a (hmem a ha) b (hmem b hb),
          fun a ha b hb => h.names a (hmem a ha) b (hmem b hb), fun t => ?_,
          fun t ht => h.fresh t (hmem t ht)⟩
        · change sys.stationCount - 1 = (existing.erase stat).card
          rw [Finset.card_erase_of_mem hstat, h.count]
        · refine (hdelete.unlockAll_apply (SystemCreate.unlockEach [stat]
            (SystemCreate.lockEach sys.walk sys.stopTransferLock)) t).trans ?_
          rw [SystemCreate.unlockEach_apply, SystemCreate.lockEach_apply, h.unlocked,
            h.count_walk, List.count_singleton]
          by_cases ht : t = stat
          · subst ht
            simp [hstat]
          · simp [ht, Ne.symm ht]

/-- **Moving a station.** -/
theorem Kept.setStationPosition (h : Kept stationsMax sys slots existing)
    {statId position parallelPosition : ℤ}
    (hsound : ∀ stat, sys.stationIdToObject statId = some stat →
      (sys.deleteStation stat).Takes (sys.config stat) position parallelPosition ∧
        if statId = 0 then
          (sys.deleteStation stat).stations = [] ∨
            position = 0 ∧ 2 ≤ (sys.deleteStation stat).stations.length
        else position = 0 → (sys.deleteStation stat).stations.length < 2) :
    (∃ slots', Kept stationsMax (sys.setStationPosition statId position parallelPosition).1 slots'
      existing) ∧
    ∀ e, (sys.setStationPosition statId position parallelPosition).2 = .error e →
      sys.SamePlaces existing (sys.setStationPosition statId position parallelPosition).1 := by
  unfold SystemCreate.setStationPosition
  cases hfind : sys.stationIdToObject statId with
  | none => exact ⟨⟨slots, h⟩, fun _ _ => .refl existing sys⟩
  | some stat =>
      obtain ⟨hstat, hid⟩ := h.mem_of_find hfind
      have hstatId : sys.stationId stat = statId := of_decide_eq_true hid
      obtain ⟨htakes, hfront⟩ := hsound stat hfind
      have hdelete := h.toPlaced.delete hstat
      have hlength : (sys.deleteStation stat).stations.length =
          (slots.flatMap (JavaSlot.without stat)).length := by
        rw [hdelete.shows.stations, List.length_map]
      have hnil : (sys.deleteStation stat).stations = [] ↔
          slots.flatMap (JavaSlot.without stat) = [] := by
        rw [hdelete.shows.stations, List.map_eq_nil_iff]
      have hpar : (sys.deleteStation stat).isParallel 0 = false :=
        (SystemCreate.isParallel_congr (SystemCreate.deleteStation_config sys stat) 0).trans
          h.isParallel_zero
      dsimp only
      unfold SystemCreate.moveStationInList
      rw [SystemCreate.deleteStation_lockAll]
      obtain ⟨stations, groups, heq⟩ := SystemCreate.deleteStation_frame sys stat
      rw [heq] at hdelete htakes hfront hlength hnil hpar ⊢
      -- the lists without the station, and all locks held
      generalize hlocked : ({ { sys with stations := stations, parallelStations := groups } with
        stopTransferLock := SystemCreate.lockEach sys.walk sys.stopTransferLock } :
          SystemCreate) = locked
      have hplaced : Placed locked (slots.flatMap (JavaSlot.without stat))
          (existing.erase stat) := by
        subst hlocked
        exact hdelete.congr rfl (fun _ _ => rfl) fun _ _ => rfl
      obtain ⟨sys'', hok⟩ := (SystemCreate.insertStation_isOk locked stat position
        parallelPosition).mpr (by
          subst hlocked
          exact htakes.congr rfl fun _ _ => rfl)
      obtain ⟨slots', hplaced', hput⟩ := hplaced.insert (Finset.notMem_erase stat existing) hok
      obtain ⟨-, stations', groups', rfl⟩ := hplaced.shows.insertStation hplaced.nodup
        (fun hc => Finset.notMem_erase stat existing ((hplaced.mem stat).mp hc)) hok
      rw [Finset.insert_erase hstat] at hplaced'
      dsimp only
      rw [hok]
      refine ⟨⟨slots', ?_⟩, fun e he => by cases he⟩
      have hzero : statId = 0 ↔ stat = 0 := by
        rw [← hstatId]
        refine ⟨fun hz => h.ids stat hstat 0 h.zero_mem (hz.trans h.grandCentral.1.symm), ?_⟩
        rintro rfl
        exact h.grandCentral.1
      have hfirst : ∃ rest, slots' = .serial 0 :: rest := by
        by_cases hs : stat = 0
        · rw [if_pos (hzero.mpr hs)] at hfront
          subst hs
          refine hput.first_self (by subst hlocked; exact hpar) ?_
          rcases hfront with hf | ⟨hp, hl⟩
          · exact .inl (hnil.mp hf)
          · exact .inr ⟨hp, hlength ▸ hl⟩
        · rw [if_neg fun hc => hs (hzero.mp hc)] at hfront
          obtain ⟨rest, hrest⟩ := h.first_without hs
          refine hput.first hrest ?_
          rintro (hf | ⟨hp, hl⟩)
          · rw [hf] at hrest
            cases hrest
          · have := hfront hp
            omega
      subst hlocked
      refine ⟨hplaced'.congr rfl (fun _ _ => rfl) fun _ _ => rfl, hfirst, h.grandCentral, h.count,
        h.limit, h.ids, h.names, fun t => ?_, h.fresh⟩
      refine (hplaced'.unlockAll_apply
        (SystemCreate.lockEach sys.walk sys.stopTransferLock) t).trans ?_
      rw [SystemCreate.lockEach_apply, h.unlocked, h.count_walk, Nat.zero_add, Nat.sub_self]

/-- What the stations were constructed with stays as it is when a new one is. -/
theorem Kept.construct (h : Kept stationsMax sys slots existing) (config : JavaStationConfig)
    (name : String) : Kept stationsMax (sys.construct config name) slots existing := by
  have hne : ∀ s ∈ existing, s ≠ sys.created := fun s hs => (h.fresh s hs).ne
  refine ⟨h.toPlaced.congr rfl (fun s hs => Function.update_of_ne (hne s hs) ..)
    fun s hs => Function.update_of_ne (hne s hs) .., h.first, ?_, h.count, h.limit,
    fun a ha b hb hab => h.ids a ha b hb ?_, fun a ha b hb hab => h.names a ha b hb ?_,
    fun s => ?_, fun s hs => (h.fresh s hs).trans (Nat.lt_succ_self _)⟩
  · have h0 := hne 0 h.zero_mem
    exact ⟨(Function.update_of_ne h0 ..).trans h.grandCentral.1,
      (Function.update_of_ne h0 ..).trans h.grandCentral.2⟩
  · simpa [SystemCreate.construct, hne a ha, hne b hb] using hab
  · simpa [SystemCreate.construct, hne a ha, hne b hb] using hab
  · rcases eq_or_ne s sys.created with rfl | hs
    · exact Function.update_self ..
    · exact (Function.update_of_ne hs ..).trans (h.unlocked s)

/-- A failed search: no station has the name. -/
theorem Kept.name_free (h : Kept stationsMax sys slots existing) {name : String}
    (hfind : sys.stationNameToObject name = none) : ∀ s ∈ existing, sys.stationName s ≠ name := by
  intro s hs
  have hwalk : s ∈ sys.walk := by
    rw [h.shows.walk_eq]
    exact (h.mem s).mpr hs
  simpa using List.find?_eq_none.mp hfind s hwalk

/-- **A new station** is put in, or the lists stay as they are. -/
theorem Kept.addStation (h : Kept stationsMax sys slots existing) {config : JavaStationConfig}
    {name : String} {position parallelPosition : ℤ}
    (hname : sys.stationNameToObject name = none)
    (hsound : sys.Takes config position parallelPosition →
      sys.stationCount < stationsMax ∧ (position = 0 → sys.stations.length < 2)) :
    let r := (sys.construct config name).addStationToList sys.created position parallelPosition
    (∃ e, r.2 = .error e ∧ Kept stationsMax r.1 slots existing ∧ sys.SamePlaces existing r.1) ∨
      r.2 = .ok () ∧ ∃ slots',
        Kept stationsMax { r.1 with stationCount := r.1.stationCount + 1 } slots'
          (insert sys.created existing) := by
  have hnew : sys.created ∉ existing := fun hc => lt_irrefl _ (h.fresh _ hc)
  have hne : ∀ s ∈ existing, s ≠ sys.created := fun s hs => (h.fresh s hs).ne
  have hcount : sys.walk.length ≤ sys.stationCount := (h.length_walk.trans h.count.symm).le
  have hfree : ∀ s ∈ existing, sys.stationId s ≠ sys.unusedId := fun s hs =>
    SystemCreate.unusedId_free hcount s (by rw [h.shows.walk_eq]; exact (h.mem s).mpr hs)
  have hnames := h.name_free hname
  have hk := h.construct config name
  have hstations : (sys.construct config name).stations = sys.stations := rfl
  have hlength : sys.stations.length = slots.length := by rw [h.shows.stations, List.length_map]
  have hplaced : Placed (sys.construct config name).lockAllStationTransferLocks slots existing :=
    hk.toPlaced.congr rfl (fun _ _ => rfl) fun _ _ => rfl
  dsimp only
  unfold SystemCreate.addStationToList
  dsimp only
  cases hok : (sys.construct config name).lockAllStationTransferLocks.insertStation sys.created
      position parallelPosition with
  | error e =>
      refine .inl ⟨e, rfl, ?_, ?_⟩
      · refine ⟨hplaced.congr rfl (fun _ _ => rfl) fun _ _ => rfl, h.first, hk.grandCentral, h.count,
          h.limit, hk.ids, hk.names, fun t => ?_, hk.fresh⟩
        refine (hplaced.unlockAll_apply (SystemCreate.lockEach (sys.construct config name).walk
          (sys.construct config name).stopTransferLock) t).trans ?_
        rw [SystemCreate.lockEach_apply, hk.unlocked, hk.count_walk, Nat.zero_add, Nat.sub_self]
      · exact h.toPlaced.samePlaces rfl (fun s hs => Function.update_of_ne (hne s hs) ..)
          (fun s hs => Function.update_of_ne (hne s hs) ..)
          fun s hs => Function.update_of_ne (hne s hs) ..
  | ok sys' =>
      refine .inr ⟨rfl, ?_⟩
      have hconfig : (sys.construct config name).lockAllStationTransferLocks.config sys.created =
          config := Function.update_self ..
      have htakes := (SystemCreate.insertStation_isOk ..).mp ⟨sys', hok⟩
      rw [hconfig] at htakes
      obtain ⟨hroom, hfront⟩ := hsound (htakes.congr rfl fun s hs =>
        (Function.update_of_ne (hne s (h.mem_of_stations hs)) ..).symm)
      obtain ⟨slots', hplaced', hput⟩ := hplaced.insert hnew hok
      obtain ⟨-, stations, groups, rfl⟩ := hplaced.shows.insertStation hplaced.nodup
        (fun hc => hnew ((hplaced.mem _).mp hc)) hok
      have hfirst : ∃ rest, slots' = .serial 0 :: rest := by
        obtain ⟨rest, hrest⟩ := h.first
        refine hput.first hrest ?_
        rintro (hf | ⟨hp, hl⟩)
        · rw [hf] at hrest
          cases hrest
        · have := hfront hp
          omega
      have hid : (sys.construct config name).stationId sys.created = sys.unusedId :=
        Function.update_self ..
      have hidold : ∀ s ∈ existing, (sys.construct config name).stationId s = sys.stationId s :=
        fun s hs => Function.update_of_ne (hne s hs) ..
      have hnm : (sys.construct config name).stationName sys.created = name :=
        Function.update_self ..
      have hnmold : ∀ s ∈ existing,
          (sys.construct config name).stationName s = sys.stationName s :=
        fun s hs => Function.update_of_ne (hne s hs) ..
      refine ⟨slots', hplaced'.congr rfl (fun _ _ => rfl) fun _ _ => rfl, hfirst, hk.grandCentral,
        ?_, ?_, fun a ha b hb hab => ?_, fun a ha b hb hab => ?_, fun t => ?_, fun t ht => ?_⟩
      · change sys.stationCount + 1 = _
        rw [Finset.card_insert_of_notMem hnew, h.count]
      · exact hroom
      · change (sys.construct config name).stationId a =
          (sys.construct config name).stationId b at hab
        rcases Finset.mem_insert.mp ha with rfl | ha' <;>
          rcases Finset.mem_insert.mp hb with rfl | hb'
        · rfl
        · rw [hid, hidold b hb'] at hab
          exact absurd hab.symm (hfree b hb')
        · rw [hid, hidold a ha'] at hab
          exact absurd hab (hfree a ha')
        · exact hk.ids a ha' b hb' hab
      · change (sys.construct config name).stationName a =
          (sys.construct config name).stationName b at hab
        rcases Finset.mem_insert.mp ha with rfl | ha' <;>
          rcases Finset.mem_insert.mp hb with rfl | hb'
        · rfl
        · rw [hnm, hnmold b hb'] at hab
          exact absurd hab.symm (hnames b hb')
        · rw [hnm, hnmold a ha'] at hab
          exact absurd hab (hnames a ha')
        · exact hk.names a ha' b hb' hab
      · refine (hplaced'.unlockAll_apply (SystemCreate.lockEach [sys.created]
          (SystemCreate.lockEach (sys.construct config name).walk
            (sys.construct config name).stopTransferLock)) t).trans ?_
        rw [SystemCreate.lockEach_apply, SystemCreate.lockEach_apply, hk.unlocked, hk.count_walk,
          List.count_singleton]
        by_cases ht : t = sys.created
        · subst ht
          simp [hnew]
        · simp [ht, Ne.symm ht]
      · rcases Finset.mem_insert.mp ht with rfl | ht
        · exact Nat.lt_succ_self _
        · exact hk.fresh t ht

/-- **Creating a station.** -/
theorem Kept.createStation (h : Kept stationsMax sys slots existing)
    {loads : JavaStationConfig → Bool} {config : JavaStationConfig} {name : String}
    {position parallelPosition : ℤ}
    (hsound : sys.stations.length < stationsMax → sys.stationNameToObject name = none →
      loads config = true → sys.Takes config position parallelPosition →
        sys.stationCount < stationsMax ∧ (position = 0 → sys.stations.length < 2)) :
    (∃ slots', Kept stationsMax
      (sys.createStation stationsMax loads config name position parallelPosition).1 slots'
      (existingAfter existing (.createStation config name position parallelPosition)
        (sys.createStation stationsMax loads config name position parallelPosition).2)) ∧
    ∀ e, (sys.createStation stationsMax loads config name position parallelPosition).2 = .error e →
      sys.SamePlaces existing
        (sys.createStation stationsMax loads config name position parallelPosition).1 := by
  have hsame : sys.SamePlaces existing sys := .refl existing sys
  unfold SystemCreate.createStation
  split
  case isTrue => exact ⟨⟨slots, h⟩, fun _ _ => hsame⟩
  case isFalse hroom =>
    dsimp only
    cases hname : sys.stationNameToObject name with
    | some listStation =>
        obtain ⟨hlisted, -⟩ := h.mem_of_find hname
        dsimp only
        split
        · refine ⟨⟨slots, ?_⟩, fun e he => by cases he⟩
          change Kept stationsMax sys slots (insert listStation existing)
          rwa [Finset.insert_eq_self.mpr hlisted]
        · exact ⟨⟨slots, h⟩, fun _ _ => hsame⟩
    | none =>
        dsimp only
        split
        case isTrue => exact ⟨⟨slots, h⟩, fun _ _ => hsame⟩
        case isFalse hloads =>
          have hsound' := hsound (not_le.mp hroom) hname (by simpa using hloads)
          have hpos : 0 < sys.stations.length := by
            obtain ⟨rest, hrest⟩ := h.first
            rw [h.shows.stations, hrest]
            exact Nat.succ_pos _
          -- positions behind the last are cut off before the station is put in
          have hclamped : sys.Takes config
              (if position > sys.stations.length then (sys.stations.length : ℤ) else position)
              parallelPosition →
              sys.stationCount < stationsMax ∧
                ((if position > sys.stations.length then (sys.stations.length : ℤ)
                  else position) = 0 → sys.stations.length < 2) := by
            split
            case isTrue hbehind =>
              intro _
              exact ⟨(hsound' (.inr (.inl hbehind.le))).1, fun h0 => by omega⟩
            case isFalse => exact hsound'
          rcases h.addStation hname hclamped with ⟨e, he, hkept, hplaces⟩ | ⟨hok, slots', hkept⟩
          · rw [he]
            exact ⟨⟨slots, hkept⟩, fun _ _ => hplaces⟩
          · rw [hok]
            exact ⟨⟨slots', hkept⟩, fun e he => by cases he⟩

end Kept

/-! ### Runs -/

section Run

variable {stationsMax : ℕ} {loads : JavaStationConfig → Bool}

/-- A new system has GRAND_CENTRAL only. -/
theorem kept_createGrandCentral (hmax : 2 ≤ stationsMax) :
    Kept stationsMax .createGrandCentral [.serial 0] {0} := by
  have hpar : SystemCreate.createGrandCentral.isParallel 0 = false := rfl
  refine ⟨⟨⟨rfl, fun slot hslot => ?_⟩, by simp [JavaSlot.members], fun s => ?_,
    fun slot hslot a ha b hb hne => ?_⟩, ⟨[], rfl⟩, ⟨rfl, rfl⟩, rfl, ?_, fun a ha b hb _ => ?_,
    fun a ha b hb _ => ?_, fun _ => rfl, fun s hs => ?_⟩
  · rw [List.mem_singleton.mp hslot]
    exact hpar
  · simp [JavaSlot.members]
  · rw [List.mem_singleton.mp hslot] at ha hb
    exact absurd ((List.mem_singleton.mp ha).trans (List.mem_singleton.mp hb).symm) hne
  · exact (Nat.le_succ 1).trans hmax
  · rw [Finset.mem_singleton.mp ha, Finset.mem_singleton.mp hb]
  · rw [Finset.mem_singleton.mp ha, Finset.mem_singleton.mp hb]
  · rw [Finset.mem_singleton.mp hs]
    exact Nat.one_pos

/-- **What one request keeps**, and what it leaves when it fails. -/
theorem Kept.serve {state : StationState} {slots : List JavaSlot}
    (h : Kept stationsMax state.sys slots state.existing) {request : StationRequest}
    (hsound : request.Sound stationsMax loads state) :
    (∃ slots', Kept stationsMax (state.serve stationsMax loads request).sys slots'
      (state.serve stationsMax loads request).existing) ∧
    ∀ e, (state.sys.serve stationsMax loads request).2 = .error e →
      state.sys.SamePlaces state.existing (state.sys.serve stationsMax loads request).1 := by
  cases request with
  | createStation config name position parallelPosition => exact h.createStation hsound
  | removeStation statId attached => exact h.removeStation hsound
  | setStationPosition statId position parallelPosition =>
      exact h.setStationPosition hsound

/-- **The stations of the Java system are in their places**, in every state of a run whose
requests meet the condition, and a request that fails leaves lists and positions alone.  The
number of stations that a system is configured for is 2 at least. -/
theorem javaStations_wellPlaced (hmax : 2 ≤ stationsMax) {state : StationState}
    (h : (stationMachine stationsMax loads).Reach
      (fun state request => request.Sound stationsMax loads state) state) :
    WellPlaced stationsMax state.sys state.existing ∧
    ∀ request : StationRequest, request.Sound stationsMax loads state →
      ∀ e, (state.sys.serve stationsMax loads request).2 = .error e →
        state.sys.SamePlaces state.existing (state.sys.serve stationsMax loads request).1 := by
  have hkept : ∃ slots, Kept stationsMax state.sys slots state.existing := by
    apply h.invariant
    · rintro _ rfl
      exact ⟨_, kept_createGrandCentral hmax⟩
    · rintro state request _ ⟨slots, hkept⟩ hsound hstep
      obtain rfl := Option.some.inj hstep
      exact (hkept.serve hsound).1
  obtain ⟨slots, hkept⟩ := hkept
  exact ⟨hkept.wellPlaced, fun request hsound => (hkept.serve hsound).2⟩

end Run

/-- Parallel stations, and a system for ten of them. -/
def parallelConfig : JavaStationConfig := { JavaStationConfig.default with flowMode := .parallel }

/-- GRAND_CENTRAL and a group of two, the stations `1` and `2`. -/
def groupOfTwo : StationState :=
  (((⟨.createGrandCentral, {0}⟩ : StationState).serve 10 (fun _ => true)
    (.createStation parallelConfig "A" endPosition endPosition)).serve 10 (fun _ => true)
    (.createStation parallelConfig "B" 1 endPosition))

theorem javaStations_wellPlaced_groupOfTwo : WellPlaced 10 groupOfTwo.sys groupOfTwo.existing := by
  have hreach : (stationMachine 10 fun _ => true).Reach
      (fun state request => request.Sound 10 (fun _ => true) state) groupOfTwo := by
    refine .step _ (.step _ (.start rfl) ?_ rfl) ?_ rfl
    · intro _ _ _ _
      exact ⟨by decide, by decide⟩
    · intro _ _ _ _
      exact ⟨by decide, by decide⟩
  exact (javaStations_wellPlaced (by decide) hreach).1

/-- **A station is lost.**  The second member of a group is to become its head, which is refused
after it was deleted: it is in no list any more, and its transfer lock is held for good. -/
theorem javaStation_lost :
    (stationMachine 10 fun _ => true).Reach (fun _ _ => True) groupOfTwo ∧
    (groupOfTwo.sys.serve 10 (fun _ => true) (.setStationPosition 2 1 0)).2 = .error .et ∧
    2 ∈ groupOfTwo.existing ∧
    2 ∉ (groupOfTwo.sys.serve 10 (fun _ => true) (.setStationPosition 2 1 0)).1.walk ∧
    (groupOfTwo.sys.serve 10 (fun _ => true) (.setStationPosition 2 1 0)).1.stopTransferLock 2 = 1 ∧
    ¬ WellPlaced 10 (groupOfTwo.serve 10 (fun _ => true) (.setStationPosition 2 1 0)).sys
      (groupOfTwo.serve 10 (fun _ => true) (.setStationPosition 2 1 0)).existing := by
  refine ⟨.step _ (.step _ (.start rfl) trivial rfl) trivial rfl, rfl, by decide, by decide, rfl,
    fun h => ?_⟩
  exact absurd (h.unlocked 2) (by decide)

end EventTransfer
