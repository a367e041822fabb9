import EventTransfer.JavaStationRun
import EventTransfer.StationPlaces

/-!
# The position that a Java station has

`insertStation` takes a position in the main list and one in a group, `getStationPosition` and
`getStationParallelPosition` return them.  In the list of a group the head has the index `0`, and
that is how the request counts, as does the C code.  `getStationParallelPosition` looks at the
head first, starts to count at `1`, and then walks over the whole list of the group, in which the
head comes once more.  A station that has joined a group is found one place further on.

* `SystemCreate.joined` — the head of the group that a station joins.
* `SystemCreate.requestedPlace` — the position and the parallel position that were asked for, as
  far as the lists reach.  The station would be put there again (`insertStation_requestedPlace`).
* `SystemCreate.PlaceKept` — they are what is returned, and what C returns.
* `placeKept_iff` — so it is for all stations but those that have joined a group.
-/

namespace EventTransfer

open StoreProgram StoreProgram.Prog

namespace SystemCreate

/-- **The group that a station joins**, if it is inserted at this position. -/
def joined (sys : SystemCreate) (newStation : ℕ) (position parallelPosition : ℤ) : Option ℕ :=
  if sys.stations.length < 2 ∨ (sys.stations.length : ℤ) ≤ position ∨ position < 0 then none
  else
    sys.stations[position.toNat]?.filter fun stat =>
      sys.isParallel newStation ∧ sys.isParallel stat ∧ parallelPosition ≠ newHeadPosition

/-- **The place that is asked for**, in lists of the lengths they have. -/
def requestedPlace (sys : SystemCreate) (newStation : ℕ) (position parallelPosition : ℤ) : ℤ × ℤ :=
  (clamped sys.stations.length position,
    match sys.joined newStation position parallelPosition with
    | some stat => clamped (sys.parallelStations stat).length parallelPosition
    | none => 0)

/-- What the getters return for a station. -/
def placeOf (sys : SystemCreate) (s : ℕ) : Option (ℤ × ℤ) := do
  let position ← sys.getStationPosition (sys.stationId s)
  let parallelPosition ← sys.getStationParallelPosition (sys.stationId s)
  some (position, parallelPosition)

/-- **The chain is well-formed**: these are its places, GRAND_CENTRAL has the first, and no two
stations have the same id. -/
structure InPlaces (sys : SystemCreate) (slots : List JavaSlot) : Prop where
  shows : sys.Shows slots
  nodup : (slots.flatMap JavaSlot.members).Nodup
  first : ∃ rest, slots = .serial 0 :: rest
  grandCentral : sys.stationId 0 = 0
  ids : ∀ a ∈ slots.flatMap JavaSlot.members, ∀ b ∈ slots.flatMap JavaSlot.members,
    sys.stationId a = sys.stationId b → a = b

/-- A station that is in no place yet, and has an id of its own. -/
structure NewTo (sys : SystemCreate) (slots : List JavaSlot) (s : ℕ) : Prop where
  notMem : s ∉ slots.flatMap JavaSlot.members
  id : ∀ a ∈ slots.flatMap JavaSlot.members, sys.stationId a ≠ sys.stationId s

/-- A chain of the C code with a serial station wherever this one has one, and groups of the same
sizes. -/
structure SameChain (sys : SystemCreate) (s : ℕ) (t : Stations) (gs : List Group) (ps : ℕ) :
    Prop where
  station : t.isParallel ps = sys.isParallel s
  heads : gs.map (fun g => t.isParallel g.1) = sys.stations.map sys.isParallel
  groups : gs.map (fun g => g.2.length + 1) = sys.slots.map fun slot => slot.members.length

/-- **The place is kept**: the getters return what was asked for, and so does `station_find` where
`station_insert` is given the same request. -/
def PlaceKept (sys sys' : SystemCreate) (s : ℕ) (position parallelPosition : ℤ) : Prop :=
  sys'.placeOf s = some (sys.requestedPlace s position parallelPosition) ∧
  ∀ (t : Stations) (gs : List Group) (ps fuel : ℕ), ChainOk t gs → ps ∉ members gs →
    t.nstations = (members gs).length + 1 → (members gs).length ≤ fuel →
    SameChain sys s t gs ps →
    value (stationInsert fuel ps position parallelPosition) t = some .ok →
      stationFind fuel (final (stationInsert fuel ps position parallelPosition) t) ps =
        some (sys'.placeOf s)

variable {sys sys' : SystemCreate} {slots before after : List JavaSlot} {slot : JavaSlot} {s : ℕ}
  {position parallelPosition : ℤ}

/-- So are the chains that the requests of clients leave. -/
theorem InPlaces.of_kept {stationsMax : ℕ} {existing : Finset ℕ}
    (h : Kept stationsMax sys slots existing) : sys.InPlaces slots := by
  refine ⟨h.shows, h.nodup, h.first, h.grandCentral.1, fun a ha b hb => ?_⟩
  exact h.ids a ((h.mem a).mp ha) b ((h.mem b).mp hb)

theorem InPlaces.length (h : sys.InPlaces slots) : sys.stations.length = slots.length := by
  rw [h.shows.stations, List.length_map]

theorem NewTo.id_ne_zero (hnew : sys.NewTo slots s) (h : sys.InPlaces slots) :
    sys.stationId s ≠ 0 := by
  obtain ⟨rest, rfl⟩ := h.first
  rw [← h.grandCentral]
  exact (hnew.id 0 List.mem_cons_self).symm

theorem InPlaces.length_pos (h : sys.InPlaces slots) : 0 < slots.length := by
  obtain ⟨rest, rfl⟩ := h.first
  exact Nat.succ_pos _

/-! ### The getters -/

/-- A station in the places. -/
theorem getStationPosition_of_slots (hslots : sys.slots = before ++ slot :: after)
    (hs : s ∈ slot.members) (h0 : sys.stationId s ≠ 0)
    (hbefore : ∀ a ∈ before.flatMap JavaSlot.members, sys.stationId a ≠ sys.stationId s) :
    sys.getStationPosition (sys.stationId s) = some before.length := by
  have hnone : before.findIdx? (fun slot =>
      decide (∃ a ∈ slot.members, sys.stationId a = sys.stationId s)) = none := by
    rw [List.findIdx?_eq_none_iff]
    intro slot' hslot'
    rw [decide_eq_false_iff_not]
    rintro ⟨a, ha, hid⟩
    exact hbefore a (List.mem_flatMap.mpr ⟨slot', hslot', ha⟩) hid
  have hfound : ∃ a ∈ slot.members, sys.stationId a = sys.stationId s := ⟨s, hs, rfl⟩
  rw [getStationPosition, if_neg h0, hslots, List.findIdx?_append, hnone, Option.none_or,
    List.findIdx?_cons, decide_eq_true hfound]
  simp

/-- The place is looked for in the same way. -/
theorem getStationParallelPosition_of_slots (hslots : sys.slots = before ++ slot :: after)
    (hs : s ∈ slot.members) (h0 : sys.stationId s ≠ 0)
    (hbefore : ∀ a ∈ before.flatMap JavaSlot.members, sys.stationId a ≠ sys.stationId s) :
    sys.getStationParallelPosition (sys.stationId s) =
      some (if sys.stationId slot.head = sys.stationId s then 0
        else 1 + slot.members.findIdx fun a => sys.stationId a = sys.stationId s) := by
  have hnone : before.find? (fun slot =>
      decide (∃ a ∈ slot.members, sys.stationId a = sys.stationId s)) = none := by
    rw [List.find?_eq_none]
    intro slot' hslot' hfound
    obtain ⟨a, ha, hid⟩ := of_decide_eq_true hfound
    exact hbefore a (List.mem_flatMap.mpr ⟨slot', hslot', ha⟩) hid
  have hfound : ∃ a ∈ slot.members, sys.stationId a = sys.stationId s := ⟨s, hs, rfl⟩
  rw [getStationParallelPosition, if_neg h0, hslots, List.find?_append, hnone, Option.none_or,
    List.find?_cons, decide_eq_true hfound]
  rfl

/-- **A head has the parallel position 0.** -/
theorem placeOf_alone (hslots : sys.slots = before ++ sys.alone s :: after)
    (h0 : sys.stationId s ≠ 0)
    (hbefore : ∀ a ∈ before.flatMap JavaSlot.members, sys.stationId a ≠ sys.stationId s) :
    sys.placeOf s = some ((before.length : ℤ), 0) := by
  have hs : s ∈ (sys.alone s).members := by
    rw [alone_members]
    exact List.mem_singleton_self s
  rw [placeOf, getStationPosition_of_slots hslots hs h0 hbefore,
    getStationParallelPosition_of_slots hslots hs h0 hbefore, alone_head, if_pos rfl]
  rfl

/-- **A member is counted with the head before it twice.** -/
theorem placeOf_member {head : ℕ} {left right : List ℕ}
    (hslots : sys.slots = before ++ .group head (left ++ s :: right) :: after)
    (h0 : sys.stationId s ≠ 0)
    (hbefore : ∀ a ∈ before.flatMap JavaSlot.members, sys.stationId a ≠ sys.stationId s)
    (hleft : ∀ a ∈ head :: left, sys.stationId a ≠ sys.stationId s) :
    sys.placeOf s = some ((before.length : ℤ), (left.length : ℤ) + 2) := by
  have hs : s ∈ (JavaSlot.group head (left ++ s :: right)).members :=
    List.mem_cons_of_mem head (List.mem_append_right left List.mem_cons_self)
  have hindex : (JavaSlot.group head (left ++ s :: right)).members.findIdx
      (fun a => decide (sys.stationId a = sys.stationId s)) = left.length + 1 := by
    have hmembers : (JavaSlot.group head (left ++ s :: right)).members =
        (head :: left) ++ s :: right := rfl
    have hlast : (s :: right).findIdx (fun a => decide (sys.stationId a = sys.stationId s)) = 0 := by
      rw [List.findIdx_cons, decide_eq_true rfl]
      rfl
    have hnone : ∀ a ∈ head :: left, decide (sys.stationId a = sys.stationId s) = false :=
      fun a ha => decide_eq_false (hleft a ha)
    rw [hmembers, List.findIdx_append, List.findIdx_eq_length_of_false hnone, hlast]
    simp
  have hhead : sys.stationId (JavaSlot.group head (left ++ s :: right)).head ≠ sys.stationId s :=
    hleft head List.mem_cons_self
  rw [placeOf, getStationPosition_of_slots hslots hs h0 hbefore,
    getStationParallelPosition_of_slots hslots hs h0 hbefore, hindex, if_neg hhead]
  refine congrArg some (Prod.ext rfl ?_)
  change ((1 + (left.length + 1) : ℕ) : ℤ) = left.length + 2
  omega

/-! ### The setter -/

/-- The index in the main list. -/
def mainIndex (sys : SystemCreate) (position : ℤ) : ℕ :=
  if sys.stations.length < 2 ∨ (sys.stations.length : ℤ) ≤ position ∨ position = endPosition then
    sys.stations.length
  else position.toNat

/-- **What inserting does**: the station is put into the main list, or behind the head of the
group that it joins. -/
theorem insertStation_spec (hok : sys.insertStation s position parallelPosition = .ok sys') :
    (sys.joined s position parallelPosition = none ∧
      sys' = sys.addToMain (sys.mainIndex position) s ∧
      (sys.mainIndex position = sys.stations.length ∨ 0 ≤ position)) ∨
    ∃ stat, sys.joined s position parallelPosition = some stat ∧
      (0 ≤ position ∧ position < sys.stations.length ∧
        sys.stations[position.toNat]? = some stat) ∧
      (sys.isParallel s = true ∧ sys.isParallel stat = true ∧
        parallelPosition ≠ newHeadPosition) ∧
      compatibleParallelConfigs (sys.config stat) (sys.config s) = true ∧
      (parallelPosition = endPosition ∨ 1 ≤ parallelPosition) ∧
      sys' = sys.setGroup stat ((sys.parallelStations stat).insertIdx
        (clamped (sys.parallelStations stat).length parallelPosition).toNat s) := by
  unfold insertStation at hok
  unfold mainIndex
  split at hok
  case isTrue hend =>
    refine .inl ⟨?_, ?_, ?_⟩
    · unfold joined
      refine if_pos ?_
      unfold endPosition at hend
      omega
    · rw [if_pos hend]
      exact (Except.ok.inj hok).symm
    · exact .inl (if_pos hend)
  case isFalse hend =>
    rw [if_neg hend]
    simp only [not_or] at hend
    obtain ⟨hsize, hlast, -⟩ := hend
    split at hok
    case isTrue => cases hok
    case isFalse hpos =>
      have hlt : position.toNat < sys.stations.length := by omega
      have hjoined : sys.joined s position parallelPosition =
          (some sys.stations[position.toNat]).filter fun stat =>
            sys.isParallel s ∧ sys.isParallel stat ∧ parallelPosition ≠ newHeadPosition := by
        rw [joined, if_neg (by omega), List.getElem?_eq_getElem hlt]
      rw [List.getElem?_eq_getElem hlt] at hok ⊢
      generalize sys.stations[position.toNat] = stat at hok hjoined ⊢
      rw [hjoined, Option.filter_some]
      dsimp only at hok
      split at hok
      case isFalse hmain =>
        refine .inl ⟨?_, (Except.ok.inj hok).symm, .inr (by omega)⟩
        rw [decide_eq_false hmain]
        rfl
      case isTrue hgroup =>
        refine .inr ⟨stat, ?_, ⟨by omega, by omega, rfl⟩, hgroup, ?_⟩
        · rw [decide_eq_true hgroup]
          rfl
        · split at hok
          case isTrue => cases hok
          case isFalse hcompatible =>
            refine ⟨not_not.mp hcompatible, ?_⟩
            split at hok
            case isTrue => cases hok
            case isFalse hzero =>
              split at hok
              case isTrue hbehind =>
                refine ⟨by omega, ?_⟩
                unfold endPosition at hbehind
                rw [clamped_of_end (by omega), Int.toNat_natCast, List.insertIdx_length_self]
                exact (Except.ok.inj hok).symm
              case isFalse hbetween =>
                split at hok
                case isTrue => cases hok
                case isFalse hneg =>
                  refine ⟨.inr (by omega), ?_⟩
                  rw [clamped_of_mem (by omega)]
                  exact (Except.ok.inj hok).symm

/-- A station of the main list is found at its index. -/
theorem InPlaces.placeOf_addToMain (h : sys.InPlaces slots) (hnew : sys.NewTo slots s) {index : ℕ}
    (hindex : index ≤ slots.length) :
    (sys.addToMain index s).placeOf s = some ((index : ℤ), 0) := by
  have hsplit : slots.take index ++ slots.drop index = slots := List.take_append_drop index slots
  have htake : (slots.take index).length = index := by
    rw [List.length_take]
    omega
  have hshows : sys.Shows (slots.take index ++ slots.drop index) := by
    rw [hsplit]
    exact h.shows
  have hnot : s ∉ (slots.take index ++ slots.drop index).flatMap JavaSlot.members := by
    rw [hsplit]
    exact hnew.notMem
  have hslots := (hshows.addToMain hnot).slots_eq
  rw [htake] at hslots
  have hplace := placeOf_alone hslots (hnew.id_ne_zero h) fun a ha => by
    refine hnew.id a ?_
    obtain ⟨slot, hslot, hmem⟩ := List.mem_flatMap.mp ha
    exact List.mem_flatMap.mpr ⟨slot, List.mem_of_mem_take hslot, hmem⟩
  rw [hplace, htake]

/-- The station that a group is found by heads it. -/
theorem InPlaces.exists_group (h : sys.InPlaces slots) {index stat : ℕ}
    (hstat : sys.stations[index]? = some stat) (hpar : sys.isParallel stat = true) :
    ∃ before rest after, slots = before ++ .group stat rest :: after ∧ before.length = index ∧
      sys.parallelStations stat = stat :: rest := by
  rw [h.shows.stations, List.getElem?_map, Option.map_eq_some_iff] at hstat
  obtain ⟨slot, hslot, rfl⟩ := hstat
  obtain ⟨hlt, rfl⟩ := List.getElem?_eq_some_iff.mp hslot
  have hshown := h.shows.shown _ (List.getElem_mem hlt)
  have hsplit : slots = slots.take index ++ slots[index] :: slots.drop (index + 1) := by
    rw [List.cons_getElem_drop_succ, List.take_append_drop]
  have htake : (slots.take index).length = index := by
    rw [List.length_take]
    omega
  generalize slots[index] = slot at hshown hpar hsplit ⊢
  cases slot with
  | serial t => exact absurd (hshown.symm.trans hpar) Bool.false_ne_true
  | group head rest => exact ⟨_, rest, _, hsplit, htake, hshown.2.1⟩

theorem InPlaces.length_group_pos (h : sys.InPlaces slots) {index stat : ℕ}
    (hstat : sys.stations[index]? = some stat) (hpar : sys.isParallel stat = true) :
    0 < (sys.parallelStations stat).length := by
  obtain ⟨_, _, _, -, -, hgroup⟩ := h.exists_group hstat hpar
  rw [hgroup]
  exact Nat.succ_pos _

/-- **A station that joins a group is found one place further on.** -/
theorem InPlaces.placeOf_setGroup (h : sys.InPlaces slots) (hnew : sys.NewTo slots s)
    {index stat k : ℕ} (hstat : sys.stations[index]? = some stat) (hs : sys.isParallel s = true)
    (hpar : sys.isParallel stat = true) (hk : 0 < k)
    (hle : k ≤ (sys.parallelStations stat).length) :
    (sys.setGroup stat ((sys.parallelStations stat).insertIdx k s)).placeOf s =
      some ((index : ℤ), (k : ℤ) + 1) := by
  obtain ⟨before, rest, after, rfl, rfl, hgroup⟩ := h.exists_group hstat hpar
  rw [hgroup] at hle ⊢
  obtain ⟨k, rfl⟩ : ∃ i, k = i + 1 := ⟨k - 1, by omega⟩
  rw [List.length_cons, Nat.add_le_add_iff_right] at hle
  have hsplit : rest.take k ++ rest.drop k = rest := List.take_append_drop k rest
  have htake : (rest.take k).length = k := by
    rw [List.length_take]
    omega
  have hinsert : (stat :: rest).insertIdx (k + 1) s = stat :: (rest.take k ++ s :: rest.drop k) := by
    have hadd := insertIdx_append (rest.take k) (rest.drop k) s
    rw [hsplit, htake] at hadd
    rw [List.insertIdx_succ_cons, hadd]
  have hshows : sys.Shows (before ++ .group stat (rest.take k ++ rest.drop k) :: after) := by
    rw [hsplit]
    exact h.shows
  have hnodup : ((before ++ .group stat (rest.take k ++ rest.drop k) :: after).flatMap
      JavaSlot.members).Nodup := by
    rw [hsplit]
    exact h.nodup
  have hslots := (hshows.addToGroup hnodup hs).slots_eq
  rw [hinsert]
  have hplace := placeOf_member hslots (hnew.id_ne_zero h)
    (fun a ha => hnew.id a (by
      rw [List.flatMap_append]
      exact List.mem_append_left _ ha))
    fun a ha => hnew.id a (by
      rw [List.flatMap_append, List.flatMap_cons]
      refine List.mem_append_right _ (List.mem_append_left _ ?_)
      rcases List.mem_cons.mp ha with rfl | hleft
      · exact List.mem_cons_self
      · exact List.mem_cons_of_mem _ (List.mem_of_mem_take hleft))
  rw [hplace, htake]
  push_cast
  ring_nf

/-! ### Set and found -/

/-- **A station that has joined a group would be put there again** by a request for the place. -/
theorem InPlaces.insertStation_requestedPlace (h : sys.InPlaces slots)
    (hok : sys.insertStation s position parallelPosition = .ok sys')
    (hgroup : sys.joined s position parallelPosition ≠ none) :
    sys.insertStation s (sys.requestedPlace s position parallelPosition).1
      (sys.requestedPlace s position parallelPosition).2 = .ok sys' := by
  rcases insertStation_spec hok with ⟨hnone, -⟩ |
    ⟨stat, hjoined, ⟨hpos, hlt, hstat⟩, ⟨hs, hpar, -⟩, hcompatible, hbehind, rfl⟩
  · exact absurd hnone hgroup
  · have hfirst : position ≠ 0 := by
      rintro rfl
      obtain ⟨rest, rfl⟩ := h.first
      rw [h.shows.stations] at hstat
      obtain rfl : 0 = stat := Option.some.inj hstat
      have hserial : sys.isParallel 0 = false := h.shows.shown _ List.mem_cons_self
      exact absurd (hserial.symm.trans hpar) Bool.false_ne_true
    rw [requestedPlace, hjoined, clamped_of_mem (by omega)]
    dsimp only
    have hclamped := clamped_mem (h.length_group_pos hstat hpar) parallelPosition
    generalize clamped (sys.parallelStations stat).length parallelPosition = place at hclamped ⊢
    have hmember : sys.isParallel s = true ∧ sys.isParallel stat = true ∧
        place ≠ newHeadPosition := by
      refine ⟨hs, hpar, ?_⟩
      unfold newHeadPosition
      omega
    have hend : ¬ (sys.stations.length < 2 ∨ (sys.stations.length : ℤ) ≤ position ∨
        position = endPosition) := by
      unfold endPosition
      omega
    rw [insertStation, if_neg hend, if_neg (by omega), hstat]
    dsimp only
    rw [if_pos hmember, if_neg (not_not_intro hcompatible), if_neg (by omega)]
    by_cases hlast : place = (sys.parallelStations stat).length
    · rw [if_pos (.inr hlast.ge), hlast, Int.toNat_natCast, List.insertIdx_length_self]
      rfl
    · rw [if_neg (by unfold endPosition; omega), if_neg (by omega)]
      rfl

theorem InPlaces.mainIndex_eq_iff (h : sys.InPlaces slots)
    (hvalid : sys.mainIndex position = sys.stations.length ∨ 0 ≤ position) :
    (sys.mainIndex position : ℤ) = clamped sys.stations.length position ↔
      ¬ (position = 0 ∧ 2 ≤ sys.stations.length) := by
  have hpos : 0 < sys.stations.length := h.length ▸ h.length_pos
  unfold mainIndex endPosition at *
  unfold clamped
  split at hvalid <;> split <;> omega

/-- **C returns the place that was asked for** where the station does not join a group. -/
theorem stationFind_of_sameChain {t : Stations} {gs : List Group} {ps fuel : ℕ}
    (h : ChainOk t gs) (hps : ps ∉ members gs) (hcount : t.nstations = (members gs).length + 1)
    (hfuel : (members gs).length ≤ fuel) (hsame : SameChain sys s t gs ps)
    (hjoined : sys.joined s position parallelPosition = none)
    (hok : value (stationInsert fuel ps position parallelPosition) t = some .ok) :
    stationFind fuel (final (stationInsert fuel ps position parallelPosition) t) ps =
      some (some (sys.requestedPlace s position parallelPosition)) := by
  have hlength : gs.length = sys.stations.length := by
    have hheads := congrArg List.length hsame.heads
    rwa [List.length_map, List.length_map] at hheads
  have hnone : joinedGroup t gs ps position parallelPosition = none := by
    by_cases hend : position < 1 ∨ (gs.length : ℤ) ≤ position
    · exact joinedGroup_end hend
    · rw [not_or, not_lt, not_le] at hend
      have hlt : position.toNat < sys.stations.length := by omega
      have hlt' : position.toNat < gs.length := by omega
      have hpar : t.isParallel gs[position.toNat].1 =
          sys.isParallel sys.stations[position.toNat] := by
        have hget := congrArg (·[position.toNat]?) hsame.heads
        simpa [hlt, hlt'] using hget
      rw [joined, if_neg (by omega), List.getElem?_eq_getElem hlt, Option.filter_some] at hjoined
      have hapart : ¬ JoinsAt t ps gs[position.toNat].1 parallelPosition := by
        unfold JoinsAt
        rw [hsame.station, hpar]
        intro hjoins
        have hjoins' : sys.isParallel s = true ∧
            sys.isParallel sys.stations[position.toNat] = true ∧
              parallelPosition ≠ newHeadPosition := hjoins
        rw [if_pos (decide_eq_true hjoins')] at hjoined
        cases hjoined
      rw [joinedGroup, if_pos hend.1, List.getElem?_eq_getElem hlt', Option.filter_some,
        decide_eq_false hapart]
      rfl
  rw [stationFind_insert h hps hcount hfuel hok, askedPlace, requestedPlace, hnone, hjoined,
    hlength]

/-- **Position set and position found.**  The getters return what was asked for, as far as the
lists reach, and so does C, exactly if the station has not joined a group; a place in front of
GRAND_CENTRAL apart, which no client asks for. -/
theorem placeKept_iff (h : sys.InPlaces slots) (hnew : sys.NewTo slots s)
    (hok : sys.insertStation s position parallelPosition = .ok sys') :
    PlaceKept sys sys' s position parallelPosition ↔
      sys.joined s position parallelPosition = none ∧
        ¬ (position = 0 ∧ 2 ≤ sys.stations.length) := by
  rcases insertStation_spec hok with ⟨hjoined, rfl, hvalid⟩ |
    ⟨stat, hjoined, ⟨hpos, -, hstat⟩, ⟨hs, hpar, -⟩, -, hbehind, rfl⟩
  · have hindex : sys.mainIndex position ≤ slots.length := by
      rw [← h.length]
      unfold mainIndex
      split <;> omega
    have hplace := h.placeOf_addToMain hnew hindex
    have hasked : sys.requestedPlace s position parallelPosition =
        (clamped sys.stations.length position, 0) := by
      rw [requestedPlace, hjoined]
    rw [and_iff_right hjoined, ← h.mainIndex_eq_iff hvalid, PlaceKept, hplace, hasked]
    constructor
    · rintro ⟨hkept, -⟩
      exact congrArg Prod.fst (Option.some.inj hkept)
    · intro hmain
      refine ⟨by rw [hmain], ?_⟩
      intro t gs ps fuel hchain hps hcount hfuel hsame hok'
      rw [stationFind_of_sameChain hchain hps hcount hfuel hsame hjoined hok', hasked, hmain]
  · -- the parallel position that is found is not the one asked for
    refine iff_of_false ?_ (by rw [hjoined]; exact fun hc => nomatch hc.1)
    have hclamped := clamped_mem (h.length_group_pos hstat hpar) parallelPosition
    obtain ⟨k, hk⟩ := Int.eq_ofNat_of_zero_le (show (0 : ℤ) ≤
      clamped (sys.parallelStations stat).length parallelPosition by omega)
    have hplace := h.placeOf_setGroup hnew hstat hs hpar (show 0 < k by omega) (by omega)
    rintro ⟨hkept, -⟩
    rw [hk, Int.toNat_natCast, hplace, requestedPlace, hjoined] at hkept
    have hparallel := congrArg Prod.snd (Option.some.inj hkept)
    dsimp only at hparallel
    omega

/-! ### A member of a group -/

/-- The configuration of a parallel station. -/
def parallelConfig : JavaStationConfig := { JavaStationConfig.default with flowMode := .parallel }

/-- The system with station `"X"` (1) behind GRAND_CENTRAL, and the head `"A"` (2) of a group behind
it.  Station `"B"` (3) has been constructed, and is to be inserted. -/
def tableStations : SystemCreate :=
  let x := (createGrandCentral.createStation 4 (fun _ => true) .default "X" endPosition
    endPosition).1
  let a := (x.createStation 4 (fun _ => true) parallelConfig "A" endPosition endPosition).1
  a.construct parallelConfig "B"

theorem inPlaces_tableStations :
    tableStations.InPlaces [.serial 0, .serial 1, .group 2 []] ∧
      tableStations.NewTo [.serial 0, .serial 1, .group 2 []] 3 := by
  refine ⟨⟨⟨by decide, ?_⟩, by decide, ⟨_, rfl⟩, by decide, by decide⟩, by decide, by decide⟩
  intro slot hslot
  rcases List.mem_cons.mp hslot with rfl | hslot
  · show tableStations.isParallel 0 = false
    decide
  rcases List.mem_cons.mp hslot with rfl | hslot
  · show tableStations.isParallel 1 = false
    decide
  obtain rfl := List.mem_singleton.mp hslot
  exact ⟨by decide, by decide, nofun⟩

/-- `"B"` is put in front of `"X"`. -/
theorem placeKept_example :
    tableStations.InPlaces [.serial 0, .serial 1, .group 2 []] ∧
      tableStations.NewTo [.serial 0, .serial 1, .group 2 []] 3 ∧
      ∃ sys', tableStations.insertStation 3 1 endPosition = .ok sys' ∧
        PlaceKept tableStations sys' 3 1 endPosition := by
  obtain ⟨hplaces, hnew⟩ := inPlaces_tableStations
  have hjoined : tableStations.joined 3 1 endPosition = none := by decide
  exact ⟨hplaces, hnew, _, rfl, (placeKept_iff hplaces hnew rfl).mpr ⟨hjoined, by decide⟩⟩

/-- **A member of a group is found one place further on.**  `"B"` joins the group of `"A"` at its
first place behind the head.  The Java system says that it has the second one; the C system says
what was asked for. -/
theorem member_place_not_kept :
    tableStations.InPlaces [.serial 0, .serial 1, .group 2 []] ∧
      tableStations.NewTo [.serial 0, .serial 1, .group 2 []] 3 ∧
      stationFind 4 tableGroup 3 = some (some (2, 1)) ∧
      ∃ sys', tableStations.insertStation 3 2 1 = .ok sys' ∧
        tableStations.requestedPlace 3 2 1 = (2, 1) ∧ sys'.placeOf 3 = some (2, 2) ∧
        ¬ PlaceKept tableStations sys' 3 2 1 := by
  obtain ⟨hplaces, hnew⟩ := inPlaces_tableStations
  have hasked : tableStations.requestedPlace 3 2 1 = (2, 1) := by decide
  have hfound : (tableStations.setGroup 2 [2, 3]).placeOf 3 = some (2, 2) := by decide
  refine ⟨hplaces, hnew, by decide, tableStations.setGroup 2 [2, 3], rfl, hasked, hfound, ?_⟩
  rintro ⟨hkept, -⟩
  rw [hfound, hasked] at hkept
  exact absurd hkept (by decide)

end SystemCreate

end EventTransfer
