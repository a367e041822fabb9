import EventTransfer.JavaStations

/-!
# Stations in their places

The lists of the Java system show a list of places (`SystemCreate.Shows`): a serial station, or a
group with its head first.  What deleting and inserting a station does is said of the places
(`Shows.deleteStation`, `Shows.insertStation`).  Everything else that should hold of the stations
follows from the stations that are in the places, in whatever order: each is there once, the
locks that are taken are those that are released, and an id is left for one more.
-/

namespace EventTransfer

/-! ### Places -/

/-- The places where the lists do not say otherwise. -/
def JavaSlot.ShownBy (sys : SystemCreate) : JavaSlot → Prop
  | serial s => sys.isParallel s = false
  | group head rest =>
      sys.isParallel head = true ∧ sys.parallelStations head = head :: rest ∧
        ∀ s ∈ rest, sys.isParallel s = true

/-- **The lists show these places.** -/
structure SystemCreate.Shows (sys : SystemCreate) (slots : List JavaSlot) : Prop where
  stations : sys.stations = slots.map JavaSlot.head
  shown : ∀ slot ∈ slots, slot.ShownBy sys

/-- The place of a group that has lost its head. -/
def JavaSlot.passedOn : List ℕ → List JavaSlot
  | [] => []
  | next :: rest => [.group next rest]

/-- A place without a station. -/
def JavaSlot.without (s : ℕ) : JavaSlot → List JavaSlot
  | serial t => if t = s then [] else [.serial t]
  | group head rest => if head = s then passedOn rest else [.group head (rest.erase s)]

/-- The place of a station that is in the main list alone. -/
def SystemCreate.alone (sys : SystemCreate) (s : ℕ) : JavaSlot :=
  if sys.isParallel s then .group s [] else .serial s

/-- **A station is put in**: at a place of its own, in front of all others where `front` holds,
or into a group, where it is not the head. -/
inductive SystemCreate.Inserted (sys : SystemCreate) (s : ℕ) (front : Prop) :
    List JavaSlot → List JavaSlot → Prop
  | main (before after : List JavaSlot) (hfront : before = [] ↔ front) :
      Inserted sys s front (before ++ after) (before ++ sys.alone s :: after)
  | member (before : List JavaSlot) (head : ℕ) (left right : List ℕ) (after : List JavaSlot)
      (hcompatible : compatibleParallelConfigs (sys.config head) (sys.config s) = true) :
      Inserted sys s front (before ++ .group head (left ++ right) :: after)
        (before ++ .group head (left ++ s :: right) :: after)

theorem JavaSlot.head_mem (slot : JavaSlot) : slot.head ∈ slot.members := by
  cases slot <;> exact List.mem_cons_self

@[simp]
theorem SystemCreate.alone_members (sys : SystemCreate) (s : ℕ) : (sys.alone s).members = [s] := by
  unfold SystemCreate.alone
  split <;> rfl

@[simp]
theorem SystemCreate.alone_head (sys : SystemCreate) (s : ℕ) : (sys.alone s).head = s := by
  unfold SystemCreate.alone
  split <;> rfl

/-- A station in one of the places is in one of them. -/
theorem exists_slot {slots : List JavaSlot} {s : ℕ} (hs : s ∈ slots.flatMap JavaSlot.members)
    (hnodup : (slots.flatMap JavaSlot.members).Nodup) : ∃ before slot after,
    slots = before ++ slot :: after ∧ s ∈ slot.members ∧ slot.members.Nodup ∧
      (∀ slot' ∈ before ++ after, ∀ t ∈ slot'.members, t ∉ slot.members) := by
  obtain ⟨slot, hslot, hmem⟩ := List.mem_flatMap.mp hs
  obtain ⟨before, after, rfl⟩ := List.append_of_mem hslot
  rw [List.flatMap_append, List.flatMap_cons] at hnodup
  obtain ⟨-, hrest, hbefore⟩ := List.nodup_append'.mp hnodup
  obtain ⟨hslot, -, hafter⟩ := List.nodup_append'.mp hrest
  refine ⟨before, slot, after, rfl, hmem, hslot, fun slot' hslot' t ht ht' => ?_⟩
  rcases List.mem_append.mp hslot' with hb | ha
  · exact hbefore (List.mem_flatMap.mpr ⟨slot', hb, ht⟩) (List.mem_append_left _ ht')
  · exact hafter ht' (List.mem_flatMap.mpr ⟨slot', ha, ht⟩)

theorem JavaSlot.without_of_notMem {slot : JavaSlot} {s : ℕ} (hs : s ∉ slot.members) :
    slot.without s = [slot] := by
  cases slot with
  | serial t => exact if_neg fun h => hs (List.mem_singleton.mpr h.symm)
  | group head rest =>
      rw [without, if_neg fun h : head = s => hs (h ▸ List.mem_cons_self),
        List.erase_of_not_mem fun h => hs (List.mem_cons_of_mem _ h)]

/-- Only the place of the station changes. -/
theorem flatMap_without {before after : List JavaSlot} {slot : JavaSlot} {s : ℕ}
    (hothers : ∀ slot' ∈ before ++ after, s ∉ slot'.members) :
    (before ++ slot :: after).flatMap (JavaSlot.without s) =
      before ++ slot.without s ++ after := by
  have hself : ∀ slots : List JavaSlot, (∀ slot' ∈ slots, s ∉ slot'.members) →
      slots.flatMap (JavaSlot.without s) = slots := by
    intro slots hslots
    induction slots with
    | nil => rfl
    | cons slot' slots ih =>
        rw [List.flatMap_cons, JavaSlot.without_of_notMem (hslots slot' List.mem_cons_self),
          ih fun slot'' h => hslots slot'' (List.mem_cons_of_mem _ h)]
        rfl
  rw [List.flatMap_append, List.flatMap_cons,
    hself before fun slot' h => hothers slot' (List.mem_append_left _ h),
    hself after fun slot' h => hothers slot' (List.mem_append_right _ h), List.append_assoc]

/-- The members of a place without one. -/
theorem JavaSlot.members_without {slot : JavaSlot} {s : ℕ} (hs : s ∈ slot.members) :
    (s :: (slot.without s).flatMap JavaSlot.members).Perm slot.members := by
  cases slot with
  | serial t =>
      obtain rfl := List.mem_singleton.mp hs
      rw [without, if_pos rfl]
      exact .refl _
  | group head rest =>
      rw [without]
      split
      case isTrue h =>
        subst h
        cases rest <;> simp [passedOn, members]
      case isFalse h =>
        have hrest : s ∈ rest := (List.mem_cons.mp hs).resolve_left (Ne.symm h)
        simp only [List.flatMap_cons, List.flatMap_nil, List.append_nil, members]
        exact (List.Perm.swap head s _).trans ((List.perm_cons_erase hrest).symm.cons head)

/-- **All stations but one.** -/
theorem members_flatMap_without {slots : List JavaSlot} {s : ℕ}
    (hs : s ∈ slots.flatMap JavaSlot.members) (hnodup : (slots.flatMap JavaSlot.members).Nodup) :
    (s :: (slots.flatMap (JavaSlot.without s)).flatMap JavaSlot.members).Perm
      (slots.flatMap JavaSlot.members) := by
  obtain ⟨before, slot, after, rfl, hslot, -, hothers⟩ := exists_slot hs hnodup
  rw [flatMap_without fun slot' h hs' => hothers slot' h s hs' hslot]
  simp only [List.flatMap_append, List.flatMap_cons, List.append_assoc]
  refine List.perm_middle.symm.trans (List.Perm.append_left _ ?_)
  rw [← List.cons_append]
  exact (JavaSlot.members_without hslot).append_right _

namespace SystemCreate

variable {sys sys' : SystemCreate} {slots : List JavaSlot} {s : ℕ}

/-- The inserted station, and all that were there. -/
theorem Inserted.perm {front : Prop} {slots' : List JavaSlot}
    (h : sys.Inserted s front slots slots') :
    (slots'.flatMap JavaSlot.members).Perm (s :: slots.flatMap JavaSlot.members) := by
  cases h with
  | main before after =>
      simp only [List.flatMap_append, List.flatMap_cons, alone_members, List.singleton_append]
      exact List.perm_middle
  | member before head left right after =>
      simp only [List.flatMap_append, List.flatMap_cons, JavaSlot.members, List.cons_append,
        List.append_assoc]
      refine ((List.perm_middle.cons head).append_left _).trans ?_
      exact ((List.Perm.swap s head _).append_left _).trans List.perm_middle

theorem Shows.slots_eq (h : sys.Shows slots) : sys.slots = slots := by
  unfold SystemCreate.slots
  rw [h.stations, List.map_map]
  refine (List.map_congr_left fun slot hslot => ?_).trans (List.map_id slots)
  have hshown := h.shown slot hslot
  cases slot with
  | serial t =>
      have hpar : sys.isParallel t = false := hshown
      simp [JavaSlot.head, hpar]
  | group head rest =>
      obtain ⟨hpar, hgroup, -⟩ := hshown
      simp [JavaSlot.head, hpar, hgroup]

theorem Shows.walk_eq (h : sys.Shows slots) : sys.walk = slots.flatMap JavaSlot.members := by
  unfold SystemCreate.walk
  rw [h.slots_eq]

/-- The places depend on the lists and the configurations of the stations. -/
theorem Shows.congr (h : sys.Shows slots) (hstations : sys'.stations = sys.stations)
    (hgroups : ∀ s ∈ sys.stations, sys'.parallelStations s = sys.parallelStations s)
    (hconfig : ∀ s ∈ slots.flatMap JavaSlot.members, sys'.config s = sys.config s) :
    sys'.Shows slots := by
  refine ⟨hstations.trans h.stations, fun slot hslot => ?_⟩
  have hpar : ∀ t ∈ slot.members, sys'.isParallel t = sys.isParallel t := fun t ht => by
    unfold isParallel
    rw [hconfig t (List.mem_flatMap.mpr ⟨slot, hslot, ht⟩)]
  have hshown := h.shown slot hslot
  cases slot with
  | serial t => exact (hpar t List.mem_cons_self).trans hshown
  | group head rest =>
      obtain ⟨hhead, hgroup, hrest⟩ := hshown
      refine ⟨(hpar head List.mem_cons_self).trans hhead, ?_, fun t ht =>
        (hpar t (List.mem_cons_of_mem _ ht)).trans (hrest t ht)⟩
      rw [hgroups head (h.stations ▸ List.mem_map.mpr ⟨_, hslot, rfl⟩), hgroup]

/-- A list that is written is not that of a head at another place. -/
theorem ShownBy.update {slot : JavaSlot} (h : slot.ShownBy sys)
    (hconfig : sys'.config = sys.config)
    (hgroup : sys'.parallelStations slot.head = sys.parallelStations slot.head) :
    slot.ShownBy sys' := by
  have hpar : ∀ t, sys'.isParallel t = sys.isParallel t := fun t => by
    unfold isParallel
    rw [hconfig]
  cases slot with
  | serial t => exact (hpar t).trans h
  | group head rest =>
      obtain ⟨hhead, hlist, hrest⟩ := h
      exact ⟨(hpar head).trans hhead, hgroup.trans hlist, fun t ht => (hpar t).trans (hrest t ht)⟩

/-! ### Deleting -/

theorem isParallel_congr (h : sys'.config = sys.config) (t : ℕ) :
    sys'.isParallel t = sys.isParallel t := by
  unfold isParallel
  rw [h]

/-- Deleting a station changes the lists only. -/
theorem deleteStation_frame (sys : SystemCreate) (s : ℕ) :
    ∃ stations parallelStations, sys.deleteStation s =
      { sys with stations := stations, parallelStations := parallelStations } := by
  unfold deleteStation
  split
  · dsimp only
    split
    · exact ⟨_, _, rfl⟩
    · split <;> exact ⟨_, _, rfl⟩
  · exact ⟨_, _, rfl⟩

@[simp]
theorem deleteStation_config (sys : SystemCreate) (s : ℕ) :
    (sys.deleteStation s).config = sys.config := by
  obtain ⟨_, _, h⟩ := deleteStation_frame sys s
  rw [h]

/-- The search passes heads whose lists do not have the station. -/
theorem removeFromGroup_append {heads rest : List ℕ} {groups : ℕ → List ℕ}
    (h : ∀ t ∈ heads, sys.isParallel t = true → s ∉ groups t) :
    sys.removeFromGroup s (heads ++ rest) groups = sys.removeFromGroup s rest groups := by
  induction heads with
  | nil => rfl
  | cons t heads ih =>
      rw [List.cons_append, removeFromGroup,
        if_neg fun hc => h t List.mem_cons_self hc.1 hc.2]
      exact ih fun t' ht' => h t' (List.mem_cons_of_mem _ ht')

/-- **Some places are replaced by others**, and the lists of the other heads stay. -/
theorem Shows.replace {before old new after : List JavaSlot}
    (h : sys.Shows (before ++ old ++ after)) (hconfig : sys'.config = sys.config)
    (hstations : sys'.stations = before.map JavaSlot.head ++ new.map JavaSlot.head ++
      after.map JavaSlot.head)
    (hgroups : ∀ slot ∈ before ++ after,
      sys'.parallelStations slot.head = sys.parallelStations slot.head)
    (hnew : ∀ slot ∈ new, slot.ShownBy sys') : sys'.Shows (before ++ new ++ after) := by
  refine ⟨by rw [hstations, List.map_append, List.map_append], fun slot hslot => ?_⟩
  have hold : ∀ slot ∈ before ++ after, slot.ShownBy sys' := fun slot hslot => by
    refine ShownBy.update (h.shown slot ?_) hconfig (hgroups slot hslot)
    rcases List.mem_append.mp hslot with hb | ha
    · exact List.mem_append_left _ (List.mem_append_left _ hb)
    · exact List.mem_append_right _ ha
  rw [List.append_assoc, List.mem_append, List.mem_append] at hslot
  rcases hslot with hb | hn | ha
  · exact hold slot (List.mem_append_left _ hb)
  · exact hnew slot hn
  · exact hold slot (List.mem_append_right _ ha)

section Delete

variable {A B : List ℕ}

theorem erase_middle (hA : s ∉ A) : (A ++ s :: B).erase s = A ++ B := by
  rw [List.erase_append_right _ hA, List.erase_cons_head]

/-- A serial station. -/
theorem deleteStation_of_serial (h : sys.stations = A ++ s :: B) (hA : s ∉ A)
    (hpar : sys.isParallel s = false) :
    sys.deleteStation s = { sys with stations := A ++ B } := by
  have hin : s ∈ sys.stations := h ▸ List.mem_append_right _ List.mem_cons_self
  have herase : sys.stations.erase s = A ++ B := by rw [h, erase_middle hA]
  unfold SystemCreate.deleteStation
  simp only [if_pos hin, hpar, herase]
  rfl

/-- A head without other members. -/
theorem deleteStation_of_only (h : sys.stations = A ++ s :: B) (hA : s ∉ A)
    (hpar : sys.isParallel s = true) (hgroup : sys.parallelStations s = [s]) :
    sys.deleteStation s =
      { sys with
        stations := A ++ B
        parallelStations := Function.update sys.parallelStations s [] } := by
  have hin : s ∈ sys.stations := h ▸ List.mem_append_right _ List.mem_cons_self
  have herase : sys.stations.erase s = A ++ B := by rw [h, erase_middle hA]
  unfold SystemCreate.deleteStation
  simp only [if_pos hin, hpar, herase, hgroup]
  rfl

/-- A head with other members. -/
theorem deleteStation_of_head {next : ℕ} {rest : List ℕ} (h : sys.stations = A ++ s :: B)
    (hA : s ∉ A) (hpar : sys.isParallel s = true)
    (hgroup : sys.parallelStations s = s :: next :: rest) :
    sys.deleteStation s =
      { sys with
        stations := A ++ next :: B
        parallelStations := Function.update
          (Function.update sys.parallelStations next (next :: rest)) s [] } := by
  have hin : s ∈ sys.stations := h ▸ List.mem_append_right _ List.mem_cons_self
  have hinsert : (sys.stations.erase s).insertIdx (sys.stations.idxOf s) next = A ++ next :: B := by
    rw [h, erase_middle hA, List.idxOf_append_of_notMem hA, List.idxOf_cons_self, Nat.add_zero,
      insertIdx_append]
  unfold SystemCreate.deleteStation
  simp only [if_pos hin, hpar, hgroup, List.drop_succ_cons, List.drop_zero, hinsert]
  rfl

/-- Another member of a group. -/
theorem deleteStation_of_member {head : ℕ} (h : sys.stations = A ++ head :: B)
    (hs : s ∉ sys.stations) (hA : ∀ t ∈ A, sys.isParallel t = true → s ∉ sys.parallelStations t)
    (hpar : sys.isParallel head = true) (hmem : s ∈ sys.parallelStations head) :
    sys.deleteStation s =
      { sys with
        parallelStations := Function.update sys.parallelStations head
          ((sys.parallelStations head).erase s) } := by
  have hfind : sys.removeFromGroup s sys.stations sys.parallelStations =
      Function.update sys.parallelStations head ((sys.parallelStations head).erase s) := by
    rw [h, removeFromGroup_append hA, removeFromGroup, if_pos ⟨hpar, hmem⟩]
  unfold SystemCreate.deleteStation
  rw [if_neg hs, hfind]

end Delete

/-- **Deleting a station** takes it from its place, and leaves the other places alone. -/
theorem Shows.deleteStation (h : sys.Shows slots)
    (hnodup : (slots.flatMap JavaSlot.members).Nodup)
    (hs : s ∈ slots.flatMap JavaSlot.members) :
    (sys.deleteStation s).Shows (slots.flatMap (JavaSlot.without s)) := by
  obtain ⟨before, slot, after, rfl, hmem, hslot, hothers⟩ := exists_slot hs hnodup
  rw [flatMap_without fun slot' h' hs' => hothers slot' h' s hs' hmem]
  have hstations := h.stations
  rw [List.map_append, List.map_cons] at hstations
  have hself := h.shown slot (List.mem_append_right _ List.mem_cons_self)
  have hbefore : ∀ t ∈ slot.members, t ∉ before.map JavaSlot.head := fun t ht hc => by
    obtain ⟨slot', hslot', rfl⟩ := List.mem_map.mp hc
    exact hothers slot' (List.mem_append_left _ hslot') _ slot'.head_mem ht
  have hafter : ∀ t ∈ slot.members, t ∉ after.map JavaSlot.head := fun t ht hc => by
    obtain ⟨slot', hslot', rfl⟩ := List.mem_map.mp hc
    exact hothers slot' (List.mem_append_right _ hslot') _ slot'.head_mem ht
  -- the lists that are written are those of members of this place
  have hne : ∀ slot' ∈ before ++ after, ∀ t ∈ slot.members, slot'.head ≠ t :=
    fun slot' hslot' t ht hc => hothers slot' hslot' _ slot'.head_mem (hc ▸ ht)
  have hshows : sys.Shows (before ++ [slot] ++ after) := by simpa using h
  cases slot with
  | serial t =>
      obtain rfl := List.mem_singleton.mp hmem
      rw [deleteStation_of_serial (s := s) hstations (hbefore _ hmem) hself, JavaSlot.without, if_pos rfl]
      refine hshows.replace rfl ?_ (fun _ _ => rfl) fun _ h => by cases h
      rw [List.map_nil, List.append_nil]
  | group head rest =>
      obtain ⟨hpar, hgroup, hrest⟩ := hself
      rw [JavaSlot.without]
      by_cases hhead : head = s
      · subst hhead
        rw [if_pos rfl]
        cases rest with
        | nil =>
            rw [deleteStation_of_only (s := head) hstations (hbefore _ hmem) hpar hgroup]
            refine hshows.replace rfl ?_ (fun slot' hslot' => ?_) fun _ h => by cases h
            · rw [JavaSlot.passedOn, List.map_nil, List.append_nil]
            · exact Function.update_of_ne (hne slot' hslot' _ hmem) ..
        | cons next rest =>
            have hnext : next ≠ head := fun hc =>
              (List.nodup_cons.mp hslot).1 (hc ▸ List.mem_cons_self)
            have hnextmem : next ∈ (JavaSlot.group head (next :: rest)).members :=
              List.mem_cons_of_mem _ List.mem_cons_self
            rw [deleteStation_of_head (s := head) hstations (hbefore _ hmem) hpar hgroup]
            refine hshows.replace rfl ?_ (fun slot' hslot' => ?_) fun slot' hslot' => ?_
            · rw [JavaSlot.passedOn, List.append_assoc]
              rfl
            · exact (Function.update_of_ne (hne slot' hslot' _ hmem) ..).trans
                (Function.update_of_ne (hne slot' hslot' _ hnextmem) ..)
            · obtain rfl := List.mem_singleton.mp hslot'
              refine ⟨hrest next List.mem_cons_self, ?_, fun t ht =>
                hrest t (List.mem_cons_of_mem _ ht)⟩
              exact (Function.update_of_ne hnext ..).trans (Function.update_self ..)
      · have hnot : s ∉ sys.stations := by
          rw [hstations, List.mem_append, List.mem_cons]
          rintro (hb | hh | ha)
          · exact hbefore s hmem hb
          · exact hhead hh.symm
          · exact hafter s hmem ha
        have hpass : ∀ t ∈ before.map JavaSlot.head, sys.isParallel t = true →
            s ∉ sys.parallelStations t := by
          intro t ht htpar hc
          obtain ⟨slot', hslot', rfl⟩ := List.mem_map.mp ht
          have hin := hothers slot' (List.mem_append_left _ hslot') s
          have hshow := h.shown slot' (List.mem_append_left _ hslot')
          cases slot' with
          | serial t => exact absurd (hshow.symm.trans htpar) Bool.false_ne_true
          | group head' rest' =>
              obtain ⟨-, hlist, -⟩ := hshow
              exact hin (by rw [JavaSlot.members, ← hlist]; exact hc) hmem
        rw [if_neg hhead, deleteStation_of_member hstations hnot hpass hpar
          (by rw [JavaSlot.head, hgroup]; exact hmem)]
        refine hshows.replace rfl ?_ (fun slot' hslot' => ?_) fun slot' hslot' => ?_
        · rw [List.append_assoc]
          exact hstations
        · exact Function.update_of_ne (hne slot' hslot' _ List.mem_cons_self) ..
        · obtain rfl := List.mem_singleton.mp hslot'
          refine ⟨hpar, (Function.update_self ..).trans ?_, fun t ht =>
            hrest t (List.mem_of_mem_erase ht)⟩
          rw [JavaSlot.head, hgroup]
          exact List.erase_cons_tail (by simpa using hhead)

/-! ### Inserting -/

/-- A station of its own in the main list. -/
theorem Shows.addToMain {before after : List JavaSlot} (h : sys.Shows (before ++ after))
    (hnew : s ∉ (before ++ after).flatMap JavaSlot.members) :
    (sys.addToMain before.length s).Shows (before ++ sys.alone s :: after) := by
  have hshows : sys.Shows (before ++ [] ++ after) := by simpa using h
  have hne : ∀ slot ∈ before ++ after, slot.head ≠ s := fun slot hslot hc =>
    hnew (List.mem_flatMap.mpr ⟨slot, hslot, hc ▸ slot.head_mem⟩)
  have hadd : (sys.addToMain before.length s).Shows (before ++ [sys.alone s] ++ after) := by
    refine hshows.replace rfl ?_ (fun slot hslot => ?_) fun slot hslot => ?_
    · have hlength : before.length = (before.map JavaSlot.head).length := (List.length_map ..).symm
      simp only [SystemCreate.addToMain]
      rw [h.stations, List.map_append, hlength, insertIdx_append, List.append_assoc]
      simp
    · simp only [SystemCreate.addToMain]
      split
      · exact Function.update_of_ne (hne slot hslot) ..
      · rfl
    · obtain rfl := List.mem_singleton.mp hslot
      unfold alone
      cases hpar : sys.isParallel s with
      | true =>
          refine ⟨hpar, ?_, nofun⟩
          simp only [SystemCreate.addToMain]
          rw [if_pos hpar, Function.update_self]
      | false => exact hpar
  simpa using hadd

/-- The list of a head is written. -/
def setGroup (sys : SystemCreate) (head : ℕ) (members : List ℕ) : SystemCreate :=
  { sys with parallelStations := Function.update sys.parallelStations head members }

/-- One more member behind the head. -/
theorem Shows.addToGroup {before after : List JavaSlot} {head : ℕ} {left right : List ℕ}
    (h : sys.Shows (before ++ .group head (left ++ right) :: after))
    (hnodup : ((before ++ .group head (left ++ right) :: after).flatMap JavaSlot.members).Nodup)
    (hpar : sys.isParallel s = true) :
    (sys.setGroup head (head :: (left ++ s :: right))).Shows
      (before ++ .group head (left ++ s :: right) :: after) := by
  have hshows : sys.Shows (before ++ [.group head (left ++ right)] ++ after) := by simpa using h
  obtain ⟨hhead, -, hrest⟩ := h.shown _ (List.mem_append_right _ List.mem_cons_self)
  have hothers : ∀ slot ∈ before ++ after, slot.head ≠ head := fun slot hslot hc => by
    rw [List.flatMap_append, List.flatMap_cons] at hnodup
    obtain ⟨-, hd, hbefore⟩ := List.nodup_append'.mp hnodup
    obtain ⟨-, -, hafter⟩ := List.nodup_append'.mp hd
    have hself : head ∈ (JavaSlot.group head (left ++ right)).members := List.mem_cons_self
    rcases List.mem_append.mp hslot with hb | ha
    · exact hbefore (List.mem_flatMap.mpr ⟨slot, hb, hc ▸ slot.head_mem⟩)
        (List.mem_append_left _ hself)
    · exact hafter hself (List.mem_flatMap.mpr ⟨slot, ha, hc ▸ slot.head_mem⟩)
  suffices hadd : (sys.setGroup head (head :: (left ++ s :: right))).Shows
      (before ++ [.group head (left ++ s :: right)] ++ after) by simpa using hadd
  refine hshows.replace rfl ?_ (fun slot hslot => ?_) fun slot hslot => ?_
  · have hstations := h.stations
    rw [List.map_append, List.map_cons] at hstations
    rw [List.append_assoc]
    exact hstations
  · exact Function.update_of_ne (hothers slot hslot) ..
  · obtain rfl := List.mem_singleton.mp hslot
    refine ⟨hhead, Function.update_self .., fun t ht => ?_⟩
    rcases List.mem_append.mp ht with hl | hr
    · exact hrest t (List.mem_append_left _ hl)
    · rcases List.mem_cons.mp hr with rfl | hr
      · exact hpar
      · exact hrest t (List.mem_append_right _ hr)

/-- **The station may be put there**: at the end, or in front of a station, or into a group that
it fits in, behind the head. -/
def Takes (sys : SystemCreate) (config : JavaStationConfig) (position parallelPosition : ℤ) :
    Prop :=
  sys.stations.length < 2 ∨ (sys.stations.length : ℤ) ≤ position ∨ position = endPosition ∨
    0 ≤ position ∧ ∀ stat, sys.stations[position.toNat]? = some stat →
      config.flowMode = .parallel → sys.isParallel stat = true →
        parallelPosition ≠ newHeadPosition →
          compatibleParallelConfigs (sys.config stat) config = true ∧
            (parallelPosition = endPosition ∨ 0 < parallelPosition)

/-- A station is inserted exactly where it may be put. -/
theorem insertStation_isOk (sys : SystemCreate) (s : ℕ) (position parallelPosition : ℤ) :
    (∃ sys', sys.insertStation s position parallelPosition = .ok sys') ↔
      sys.Takes (sys.config s) position parallelPosition := by
  unfold insertStation Takes
  by_cases hend : sys.stations.length < 2 ∨ (sys.stations.length : ℤ) ≤ position ∨
      position = endPosition
  · rw [if_pos hend]
    refine ⟨fun _ => ?_, fun _ => ⟨_, rfl⟩⟩
    rcases hend with h | h | h
    · exact .inl h
    · exact .inr (.inl h)
    · exact .inr (.inr (.inl h))
  · rw [if_neg hend]
    simp only [not_or] at hend
    obtain ⟨hsize, hlast, hnend⟩ := hend
    simp only [hsize, hlast, hnend, false_or]
    by_cases hneg : position < 0
    · rw [if_pos hneg]
      exact ⟨fun h => (by obtain ⟨_, h⟩ := h; cases h), fun h => absurd h.1 (by omega)⟩
    · rw [if_neg hneg]
      have hlt : position.toNat < sys.stations.length := by omega
      rw [List.getElem?_eq_getElem hlt]
      generalize sys.stations[position.toNat] = stat
      dsimp only
      by_cases hgroup : sys.isParallel s = true ∧ sys.isParallel stat = true ∧
          parallelPosition ≠ newHeadPosition
      · rw [if_pos hgroup]
        obtain ⟨hs, hstat, hhead⟩ := hgroup
        have hiff : (0 ≤ position ∧ ∀ stat', some stat = some stat' →
            (sys.config s).flowMode = .parallel → sys.isParallel stat' = true →
              parallelPosition ≠ newHeadPosition →
                compatibleParallelConfigs (sys.config stat') (sys.config s) = true ∧
                  (parallelPosition = endPosition ∨ 0 < parallelPosition)) ↔
            compatibleParallelConfigs (sys.config stat) (sys.config s) = true ∧
              (parallelPosition = endPosition ∨ 0 < parallelPosition) := by
          refine ⟨fun h => h.2 stat rfl (by simpa [isParallel] using hs) hstat hhead, fun h => ?_⟩
          refine ⟨by omega, ?_⟩
          rintro _ ⟨⟩ - - -
          exact h
        rw [hiff]
        by_cases hcompat : compatibleParallelConfigs (sys.config stat) (sys.config s) = true
        · rw [if_neg (not_not_intro hcompat)]
          simp only [hcompat, true_and]
          by_cases hzero : parallelPosition = 0
          · rw [if_pos hzero]
            refine ⟨fun h => (by obtain ⟨_, h⟩ := h; cases h), fun h => ?_⟩
            unfold endPosition at h
            omega
          · rw [if_neg hzero]
            by_cases hlast : parallelPosition = endPosition ∨
                ((sys.parallelStations stat).length : ℤ) ≤ parallelPosition
            · rw [if_pos hlast]
              refine ⟨fun _ => ?_, fun _ => ⟨_, rfl⟩⟩
              rcases hlast with h | h
              · exact .inl h
              · exact .inr (by omega)
            · rw [if_neg hlast]
              rw [not_or] at hlast
              by_cases hneg : parallelPosition < 0
              · rw [if_pos hneg]
                refine ⟨fun h => (by obtain ⟨_, h⟩ := h; cases h), fun h => ?_⟩
                rcases h with h | h
                · exact absurd h hlast.1
                · omega
              · rw [if_neg hneg]
                exact ⟨fun _ => .inr (by omega), fun _ => ⟨_, rfl⟩⟩
        · rw [if_pos hcompat]
          exact ⟨fun h => (by obtain ⟨_, h⟩ := h; cases h), fun h => absurd h.1 hcompat⟩
      · rw [if_neg hgroup]
        refine ⟨fun _ => ⟨by omega, ?_⟩, fun _ => ⟨_, rfl⟩⟩
        rintro _ ⟨⟩ hs hstat hhead
        exact absurd ⟨by simpa [isParallel] using hs, hstat, hhead⟩ hgroup

/-- **What inserting can do**: the station is added at the end, or in front of the station at its
position, or to the group of that station. -/
theorem insertStation_cases {position parallelPosition : ℤ}
    (h : sys.insertStation s position parallelPosition = .ok sys') :
    (sys.stations.length < 2 ∨ (sys.stations.length : ℤ) ≤ position ∨ position = endPosition) ∧
        sys' = sys.addToMain sys.stations.length s ∨
      (2 ≤ sys.stations.length ∧ 0 ≤ position ∧ position < sys.stations.length) ∧
        sys' = sys.addToMain position.toNat s ∨
      ∃ stat, sys.stations[position.toNat]? = some stat ∧ sys.isParallel s = true ∧
        sys.isParallel stat = true ∧
        compatibleParallelConfigs (sys.config stat) (sys.config s) = true ∧
        ∃ index ≤ (sys.parallelStations stat).length,
          (0 < index ∨ index = (sys.parallelStations stat).length) ∧
          sys' = sys.setGroup stat ((sys.parallelStations stat).insertIdx index s) := by
  unfold insertStation at h
  split at h
  case isTrue hend => exact .inl ⟨hend, (Except.ok.inj h).symm⟩
  case isFalse hend =>
    simp only [not_or] at hend
    obtain ⟨hsize, hlast, -⟩ := hend
    split at h
    case isTrue => cases h
    case isFalse hpos =>
      have hlt : position.toNat < sys.stations.length := by omega
      rw [List.getElem?_eq_getElem hlt] at h ⊢
      dsimp only at h
      split at h
      case isFalse =>
        exact .inr (.inl ⟨by omega, (Except.ok.inj h).symm⟩)
      case isTrue hgroup =>
        obtain ⟨hs, hstat, -⟩ := hgroup
        refine .inr (.inr ⟨_, rfl, hs, hstat, ?_⟩)
        generalize sys.stations[position.toNat] = stat at h hstat ⊢
        split at h
        case isTrue => cases h
        case isFalse hcompat =>
          refine ⟨not_not.mp hcompat, ?_⟩
          split at h
          case isTrue => cases h
          case isFalse hzero =>
            split at h
            case isTrue =>
              refine ⟨_, le_rfl, .inr rfl, ?_⟩
              rw [List.insertIdx_length_self]
              exact (Except.ok.inj h).symm
            case isFalse hend =>
              rw [not_or] at hend
              split at h
              case isTrue => cases h
              case isFalse =>
                exact ⟨parallelPosition.toNat, by omega, .inl (by omega), (Except.ok.inj h).symm⟩

/-- **Inserting a station** puts it in, and changes the lists only. -/
theorem Shows.insertStation {position parallelPosition : ℤ} (h : sys.Shows slots)
    (hnodup : (slots.flatMap JavaSlot.members).Nodup) (hnew : s ∉ slots.flatMap JavaSlot.members)
    (hok : sys.insertStation s position parallelPosition = .ok sys') :
    (∃ slots', sys'.Shows slots' ∧
      sys.Inserted s (slots = [] ∨ position = 0 ∧ 2 ≤ slots.length) slots slots') ∧
    ∃ stations groups, sys' = { sys with stations := stations, parallelStations := groups } := by
  have hlength : sys.stations.length = slots.length := by rw [h.stations, List.length_map]
  rcases insertStation_cases hok with ⟨hend, rfl⟩ | ⟨⟨hsize, hpos, hlt⟩, rfl⟩ |
    ⟨stat, hstat, hs, hpar, hcompat, index, hindex, hbehind, rfl⟩
  · refine ⟨⟨slots ++ [sys.alone s], ?_, ?_⟩, _, _, rfl⟩
    · rw [hlength]
      exact Shows.addToMain (by simpa using h) (by simpa using hnew)
    · have hfront : slots = [] ↔ slots = [] ∨ position = 0 ∧ 2 ≤ slots.length := by
        unfold endPosition at hend
        refine ⟨.inl, fun hf => hf.resolve_right fun hf => ?_⟩
        omega
      have hput : sys.Inserted s _ (slots ++ []) (slots ++ [sys.alone s]) := .main slots [] hfront
      rwa [List.append_nil] at hput
  · refine ⟨⟨slots.take position.toNat ++ sys.alone s :: slots.drop position.toNat, ?_, ?_⟩,
      _, _, rfl⟩
    · have hsplit : slots.take position.toNat ++ slots.drop position.toNat = slots :=
        List.take_append_drop ..
      have htake : (slots.take position.toNat).length = position.toNat := by
        rw [List.length_take]
        omega
      rw [← hsplit] at h hnew
      have hadd := h.addToMain hnew
      rwa [htake] at hadd
    · have hfront : slots.take position.toNat = [] ↔
          slots = [] ∨ position = 0 ∧ 2 ≤ slots.length := by
        rw [List.take_eq_nil_iff]
        constructor
        · rintro (hzero | hnil)
          · exact .inr ⟨by omega, by omega⟩
          · exact .inl hnil
        · rintro (hnil | ⟨hzero, -⟩)
          · exact .inr hnil
          · exact .inl (by omega)
      have hput : sys.Inserted s _ (slots.take position.toNat ++ slots.drop position.toNat)
          (slots.take position.toNat ++ sys.alone s :: slots.drop position.toNat) :=
        .main _ _ hfront
      rwa [List.take_append_drop] at hput
  · -- the station at the position is the head of its group
    rw [h.stations, List.getElem?_map, Option.map_eq_some_iff] at hstat
    obtain ⟨slot, hslot, rfl⟩ := hstat
    obtain ⟨before, after, rfl⟩ := List.append_of_mem (List.mem_of_getElem? hslot)
    have hshown := h.shown slot (List.mem_append_right _ List.mem_cons_self)
    cases slot with
    | serial t => exact absurd (hshown.symm.trans hpar) Bool.false_ne_true
    | group head rest =>
        obtain ⟨-, hgroup, -⟩ := hshown
        rw [JavaSlot.head, hgroup] at hindex hbehind
        obtain ⟨index, rfl⟩ : ∃ i, index = i + 1 := by
          rcases hbehind with hi | hi
          · exact ⟨index - 1, by omega⟩
          · exact ⟨rest.length, by simpa using hi⟩
        have hrest : index ≤ rest.length := by simpa using hindex
        have hsplit : rest.take index ++ rest.drop index = rest := List.take_append_drop ..
        have hinsert : (head :: rest).insertIdx (index + 1) s =
            head :: (rest.take index ++ s :: rest.drop index) := by
          rw [List.insertIdx_succ_cons]
          refine congrArg (head :: ·) ?_
          have hadd := insertIdx_append (rest.take index) (rest.drop index) s
          rwa [hsplit, List.length_take, min_eq_left hrest] at hadd
        refine ⟨⟨before ++ .group head (rest.take index ++ s :: rest.drop index) :: after,
          ?_, ?_⟩, _, _, rfl⟩
        · rw [JavaSlot.head, hgroup, hinsert]
          exact Shows.addToGroup (by rw [hsplit]; exact h) (by rw [hsplit]; exact hnodup) hs
        · have hput : ∀ front, sys.Inserted s front
              (before ++ .group head (rest.take index ++ rest.drop index) :: after)
              (before ++ .group head (rest.take index ++ s :: rest.drop index) :: after) :=
            fun front => .member before head _ _ after hcompat
          rw [hsplit] at hput
          exact hput _

end SystemCreate

end EventTransfer
