import EventTransfer.ConductorChain
import EventTransfer.JavaWakeUp

/-!
# Reading the events of one group from a Java list

`EventList.get` with a group goes round a loop: it waits until the list has events, unless its
mode is `async`, cuts the quantity down to the size of the list, and goes through the list for
events of the group.  When it finds none it waits for the list to change.  What the waits end
with is given here: the list, whether the attachment is woken up, and how long the wait was.

* `EventList.getGroup` — the method.
* `looks` — the lists it sees, up to the first that has an event of the group.
* `getGroup_right_iff` — it returns the first events of the group, as many as the caller wanted
  or as there are, exactly when the mode is not `async`, the caller wanted some, and no list
  before was shorter than what is to be returned.
-/

namespace EventTransfer

/-- **The content of a list**: no event is in it twice. -/
abbrev ListContent := { events : List ℕ // events.Nodup }

/-- The end of a wait: the list then, whether `att.isWakeUp() || wakeAll` holds, and by how many
milliseconds the clock has advanced. -/
structure JavaWait where
  events : ListContent
  wakenUp : Bool
  elapsed : ℤ

/-- **The end of the method**: what it returns or throws, the events returned, and the list that
is left. -/
structure GroupGetEnd where
  result : ReadResult
  groupList : List ℕ
  events : List ℕ
  deriving DecidableEq, Repr

section EventList

variable (hdr : ℕ → EventHeader) (mode : WaitMode) (microSec : ℤ) (group : ℕ)

/-! ## The method -/

/-- The pass through the list.  The count is compared after an event has been added. -/
def scanGroup (quantity : ℤ) : ℕ → List ℕ → List ℕ
  | _, [] => []
  | groupCount, ev :: events =>
      if wants hdr (some group) ev then
        if (groupCount + 1 : ℕ) ≥ quantity then [ev]
        else ev :: scanGroup quantity (groupCount + 1) events
      else scanGroup quantity groupCount events

/-- `quantity` is cut down, and the list is gone through; without an event of the group the
method goes on with what `quantity` is now. -/
def scanThen (quantity : ℤ) (events : ListContent) (again : ℤ → Option GroupGetEnd) :
    Option GroupGetEnd :=
  let quantity : ℤ := if quantity > events.1.length then events.1.length else quantity
  let groupList := scanGroup hdr group quantity 0 events.1
  if groupList = [] then again quantity
  else some ⟨.ok, groupList, events.1.filter (· ∉ groupList)⟩

/-- The time of a timed read is over. -/
def TimeOver (elapsedTime : ℤ) : Prop := mode = .timed ∧ microSec - 1000 * elapsedTime ≤ 0

instance (elapsedTime : ℤ) : Decidable (TimeOver mode microSec elapsedTime) :=
  inferInstanceAs (Decidable (_ ∧ _))

/-- The loop from a wait on, with the list as it is before the wait.  `none`: the method still
waits. -/
def waitGroup : ℤ → ℤ → ListContent → List JavaWait → Option GroupGetEnd
  | _, elapsedTime, events, [] =>
      if TimeOver mode microSec elapsedTime then some ⟨.timeout, [], events.1⟩ else none
  | quantity, elapsedTime, events, w :: waits =>
      if TimeOver mode microSec elapsedTime then some ⟨.timeout, [], events.1⟩
      else if w.wakenUp then some ⟨.wakeup, [], w.events.1⟩
      else if w.events.1.length < 1 then
        waitGroup quantity (elapsedTime + w.elapsed) w.events waits
      else
        scanThen hdr group quantity w.events fun quantity =>
          waitGroup quantity (elapsedTime + w.elapsed) w.events waits

/-- **`EventList.get` with a group.** -/
def getGroup (quantity : ℤ) (events : ListContent) (waits : List JavaWait) : Option GroupGetEnd :=
  if mode = .async then some ⟨.empty, [], events.1⟩
  else if events.1.length < 1 then waitGroup hdr mode microSec group quantity 0 events waits
  else
    scanThen hdr group quantity events fun quantity =>
      waitGroup hdr mode microSec group quantity 0 events waits

/-! ## What it sees -/

/-- The events of the group. -/
def groupOf (events : ListContent) : List ℕ := events.1.filter (wants hdr (some group))

/-- The lists at the ends of the waits, up to the first with an event of the group. -/
def waitLooks : ℤ → List JavaWait → List ListContent
  | _, [] => []
  | elapsedTime, w :: waits =>
      if TimeOver mode microSec elapsedTime ∨ w.wakenUp then []
      else
        w.events :: if groupOf hdr group w.events = [] then
          waitLooks (elapsedTime + w.elapsed) waits else []

/-- **The lists that the method sees**, up to the first with an event of the group. -/
def looks (events : ListContent) (waits : List JavaWait) : List ListContent :=
  events :: if mode = .async ∨ groupOf hdr group events ≠ [] then []
    else waitLooks hdr mode microSec group 0 waits

/-- **What a read of a group is to do**: where the last list it sees has events of the group, it
returns the first ones, as many as were wanted or as there are, and leaves all others in their
order; it says that the list is empty only where there is no event of the group. -/
structure GroupReadRight (quantity : ℤ) (events : ListContent) (waits : List JavaWait) :
    Prop where
  takes : ∀ list, (looks hdr mode microSec group events waits).getLast? = some list →
    groupOf hdr group list ≠ [] → ∃ left,
      getGroup hdr mode microSec group quantity events waits =
        some ⟨.ok, (groupOf hdr group list).take quantity.toNat, left⟩ ∧
      Splits list.1 ((groupOf hdr group list).take quantity.toNat) left
  empty : ∀ groupList left, getGroup hdr mode microSec group quantity events waits =
    some ⟨.empty, groupList, left⟩ → mode = .async ∧ groupOf hdr group events = []

end EventList

/-! ## One pass through a list -/

section Scan

variable {hdr : ℕ → EventHeader} {mode : WaitMode} {microSec : ℤ} {group : ℕ}

theorem scanGroup_eq (quantity : ℤ) (groupCount : ℕ) (events : List ℕ) :
    scanGroup hdr group quantity groupCount events =
      (events.filter (wants hdr (some group))).take (max 1 (quantity - groupCount).toNat) := by
  induction events generalizing groupCount with
  | nil => rw [List.filter_nil, List.take_nil, scanGroup]
  | cons ev events ih =>
      rw [scanGroup]
      by_cases hev : wants hdr (some group) ev = true
      · rw [if_pos hev, List.filter_cons_of_pos hev]
        split_ifs with hlast
        · have hone : max 1 (quantity - groupCount).toNat = 1 := by omega
          rw [hone]
          rfl
        · have hmore : max 1 (quantity - groupCount).toNat =
              max 1 (quantity - (groupCount + 1 : ℕ)).toNat + 1 := by omega
          rw [ih, hmore, List.take_succ_cons]
      · rw [if_neg hev, List.filter_cons_of_neg hev, ih]

/-- What is left when the events that were found are removed. -/
theorem splits_removeAll (p : ℕ → Bool) (n : ℕ) {events : List ℕ} (hnodup : events.Nodup) :
    Splits events ((events.filter p).take n) (events.filter (· ∉ (events.filter p).take n)) := by
  have hsplit := splits_takeWhere p n events
  have hleft := hsplit.left_eq hnodup
  rw [takeWhere_fst] at hsplit hleft
  rwa [hleft] at hsplit

/-- What is left of the quantity after a list was looked at in vain. -/
def cut (quantity : ℤ) (events : ListContent) : ℤ :=
  if events.1.length < 1 then quantity else min quantity events.1.length

/-- **A list is looked at.** -/
theorem look_eq (quantity : ℤ) (events : ListContent) (again : ℤ → Option GroupGetEnd) :
    (if events.1.length < 1 then again quantity else scanThen hdr group quantity events again) =
      if groupOf hdr group events = [] then again (cut quantity events)
      else some ⟨.ok, (groupOf hdr group events).take (max 1 quantity.toNat),
        events.1.filter (· ∉ (groupOf hdr group events).take (max 1 quantity.toNat))⟩ := by
  by_cases hempty : events.1.length < 1
  · have hnone : groupOf hdr group events = [] := by
      rw [groupOf, List.length_eq_zero_iff.mp (Nat.lt_one_iff.mp hempty)]
      rfl
    rw [if_pos hempty, if_pos hnone, cut, if_pos hempty]
  · have hcut : (if quantity > (events.1.length : ℤ) then (events.1.length : ℤ) else quantity) =
        cut quantity events := by
      rw [cut, if_neg hempty, min_def]
      split_ifs <;> omega
    have hle : (groupOf hdr group events).length ≤ events.1.length :=
      List.length_filter_le _ _
    rw [if_neg hempty, scanThen, hcut, scanGroup_eq]
    show (if (groupOf hdr group events).take _ = [] then _ else _) = _
    by_cases hnone : groupOf hdr group events = []
    · rw [hnone, List.take_nil, if_pos rfl, if_pos rfl]
    · have htake : (groupOf hdr group events).take (max 1 (cut quantity events - (0 : ℕ)).toNat) =
          (groupOf hdr group events).take (max 1 quantity.toNat) := by
        rw [cut, if_neg hempty, List.take_eq_take_iff]
        omega
      have hsome : (groupOf hdr group events).take (max 1 quantity.toNat) ≠ [] := by
        rw [ne_eq, List.take_eq_nil_iff, not_or]
        exact ⟨by omega, hnone⟩
      rw [htake, if_neg hsome, if_neg hnone]
      rw [show events.1.filter (wants hdr (some group)) = groupOf hdr group events from rfl, htake]

/-! ## The loop -/

/-- What is left of the quantity after some lists were looked at in vain. -/
def cutAll (quantity : ℤ) (seen : List ListContent) : ℤ := seen.foldl cut quantity

theorem cutAll_le (quantity : ℤ) (seen : List ListContent) : cutAll quantity seen ≤ quantity := by
  induction seen generalizing quantity with
  | nil => exact le_rfl
  | cons events seen ih =>
      refine (ih (cut quantity events)).trans ?_
      unfold cut
      split_ifs
      · exact le_rfl
      · exact min_le_left _ _

/-- It is at least `n` if no list was shorter, but for empty ones. -/
theorem le_cutAll_iff (n : ℕ) {quantity : ℤ} (hn : n ≤ quantity) (seen : List ListContent) :
    n ≤ cutAll quantity seen ↔ ∀ events ∈ seen, events.1 = [] ∨ n ≤ events.1.length := by
  induction seen generalizing quantity with
  | nil => exact ⟨fun _ events h => absurd h List.not_mem_nil, fun _ => hn⟩
  | cons events seen ih =>
      rw [List.forall_mem_cons]
      show (n : ℤ) ≤ cutAll (cut quantity events) seen ↔ _
      by_cases hempty : events.1.length < 1
      · rw [cut, if_pos hempty, ih hn]
        have hnil : events.1 = [] := List.length_eq_zero_iff.mp (Nat.lt_one_iff.mp hempty)
        exact (and_iff_right (.inl hnil)).symm
      · have hne : events.1 ≠ [] := fun h => hempty (by rw [h]; exact Nat.one_pos)
        rw [cut, if_neg hempty, or_iff_right hne]
        by_cases hlen : n ≤ events.1.length
        · rw [ih (le_min hn (by exact_mod_cast hlen))]
          exact (and_iff_right hlen).symm
        · constructor
          · intro hle
            have hcut := hle.trans (cutAll_le (min quantity events.1.length) seen)
            omega
          · exact fun h => absurd h.1 hlen

/-- The end of a read that takes from a list, after it has looked at others in vain. -/
def groupGot (hdr : ℕ → EventHeader) (group : ℕ) (quantity : ℤ) (seen : List ListContent)
    (list : ListContent) : GroupGetEnd :=
  let taken := (groupOf hdr group list).take (max 1 (cutAll quantity seen).toNat)
  ⟨.ok, taken, list.1.filter (· ∉ taken)⟩

/-- **A read that waits takes from the first list with an event of its group**, with the
quantity that is left. -/
theorem waitGroup_eq {quantity elapsedTime : ℤ} {events list : ListContent}
    {waits : List JavaWait}
    (hlast : (waitLooks hdr mode microSec group elapsedTime waits).getLast? = some list)
    (hlist : groupOf hdr group list ≠ []) :
    waitGroup hdr mode microSec group quantity elapsedTime events waits =
      some (groupGot hdr group quantity
        (waitLooks hdr mode microSec group elapsedTime waits).dropLast list) := by
  induction waits generalizing quantity elapsedTime events with
  | nil => exact nomatch hlast
  | cons w waits ih =>
      rw [waitLooks] at hlast ⊢
      by_cases hend : TimeOver mode microSec elapsedTime ∨ w.wakenUp
      · rw [if_pos hend] at hlast
        exact nomatch hlast
      · rw [if_neg hend] at hlast ⊢
        obtain ⟨htime, hwaken⟩ := not_or.mp hend
        rw [waitGroup, if_neg htime, if_neg hwaken, look_eq quantity w.events fun quantity =>
          waitGroup hdr mode microSec group quantity (elapsedTime + w.elapsed) w.events waits]
        by_cases hnone : groupOf hdr group w.events = []
        · rw [if_pos hnone] at hlast ⊢
          rw [if_pos hnone]
          rcases hrest : waitLooks hdr mode microSec group (elapsedTime + w.elapsed) waits with
            _ | ⟨m, rest⟩
          · rw [hrest] at hlast
            cases hlast
            exact absurd hnone hlist
          · rw [hrest, List.getLast?_cons_cons, ← hrest] at hlast
            rw [ih hlast, hrest, List.dropLast_cons_of_ne_nil (List.cons_ne_nil m rest)]
            rfl
        · rw [if_neg hnone] at hlast ⊢
          rw [if_neg hnone]
          cases hlast
          rfl

/-- It does not say that the list is empty. -/
theorem waitGroup_ne_empty {quantity elapsedTime : ℤ} {events : ListContent}
    {waits : List JavaWait} {groupList left : List ℕ} :
    waitGroup hdr mode microSec group quantity elapsedTime events waits ≠
      some ⟨.empty, groupList, left⟩ := by
  induction waits generalizing quantity elapsedTime events with
  | nil =>
      rw [waitGroup]
      split_ifs <;> exact nofun
  | cons w waits ih =>
      rw [waitGroup, look_eq quantity w.events fun quantity =>
        waitGroup hdr mode microSec group quantity (elapsedTime + w.elapsed) w.events waits]
      split_ifs
      · exact nofun
      · exact nofun
      · exact ih
      · exact nofun

/-- **The method takes from the first list with an event of the group** that it sees. -/
theorem getGroup_eq {quantity : ℤ} {events list : ListContent} {waits : List JavaWait}
    (hmode : mode ≠ .async)
    (hlast : (looks hdr mode microSec group events waits).getLast? = some list)
    (hlist : groupOf hdr group list ≠ []) :
    getGroup hdr mode microSec group quantity events waits =
      some (groupGot hdr group quantity
        (looks hdr mode microSec group events waits).dropLast list) := by
  rw [getGroup, if_neg hmode, look_eq quantity events fun quantity =>
    waitGroup hdr mode microSec group quantity 0 events waits]
  rw [looks] at hlast ⊢
  by_cases hnone : groupOf hdr group events = []
  · have hgo : ¬ (mode = .async ∨ groupOf hdr group events ≠ []) :=
      not_or.mpr ⟨hmode, not_not.mpr hnone⟩
    rw [if_neg hgo] at hlast ⊢
    rw [if_pos hnone]
    rcases hrest : waitLooks hdr mode microSec group 0 waits with _ | ⟨m, rest⟩
    · rw [hrest] at hlast
      cases hlast
      exact absurd hnone hlist
    · rw [hrest, List.getLast?_cons_cons, ← hrest] at hlast
      rw [waitGroup_eq hlast hlist, hrest, List.dropLast_cons_of_ne_nil (List.cons_ne_nil m rest)]
      rfl
  · have hstop : mode = .async ∨ groupOf hdr group events ≠ [] := .inr hnone
    rw [if_pos hstop] at hlast ⊢
    rw [if_neg hnone]
    cases hlast
    rfl

end Scan

/-! ## When a read is right -/

section Right

variable {hdr : ℕ → EventHeader} {mode : WaitMode} {microSec : ℤ} {group : ℕ}

/-- The quantity that is left is enough. -/
theorem groupTaken_eq_iff {quantity : ℤ} {seen : List ListContent} {list : ListContent}
    (hlist : groupOf hdr group list ≠ []) :
    (groupOf hdr group list).take (max 1 (cutAll quantity seen).toNat) =
        (groupOf hdr group list).take quantity.toNat ↔
      1 ≤ quantity ∧ ∀ events ∈ seen, events.1 = [] ∨
        min quantity (groupOf hdr group list).length ≤ events.1.length := by
  have hpos : 0 < (groupOf hdr group list).length := List.length_pos_iff.mpr hlist
  have hcut := cutAll_le quantity seen
  rw [List.take_eq_take_iff]
  by_cases hquantity : 1 ≤ quantity
  · have hwanted : (min quantity.toNat (groupOf hdr group list).length : ℕ) ≤ quantity := by
      omega
    have hle := le_cutAll_iff _ hwanted seen
    have hone := le_cutAll_iff 1 hquantity seen
    have hleft : 1 ≤ cutAll quantity seen := by
      have hall : ∀ events ∈ seen, events.1 = [] ∨ 1 ≤ events.1.length := by
        intro events _
        rcases List.eq_nil_or_concat events.1 with h | h
        · exact .inl h
        · exact .inr (by obtain ⟨_, _, h⟩ := h; rw [h]; simp)
      exact_mod_cast hone.mpr hall
    have hmin : ∀ events : ListContent,
        min quantity (groupOf hdr group list).length ≤ events.1.length ↔
          min quantity.toNat (groupOf hdr group list).length ≤ events.1.length := by
      intro events
      omega
    simp only [hmin]
    rw [and_iff_right hquantity, ← hle]
    omega
  · refine iff_of_false ?_ fun h => hquantity h.1
    omega

/-- **Exactly when a read of a group is right**: a read that waits, whose caller wants some
events, and that has seen in vain no list shorter than what it is to return, but for empty ones;
and a read that finds no event of the group. -/
theorem getGroup_right_iff (quantity : ℤ) (events : ListContent) (waits : List JavaWait) :
    GroupReadRight hdr mode microSec group quantity events waits ↔
      ∀ list, (looks hdr mode microSec group events waits).getLast? = some list →
        groupOf hdr group list ≠ [] → mode ≠ .async ∧ 1 ≤ quantity ∧
          ∀ seen ∈ (looks hdr mode microSec group events waits).dropLast,
            seen.1 = [] ∨ min quantity (groupOf hdr group list).length ≤ seen.1.length := by
  constructor
  · intro h list hlast hlist
    obtain ⟨left, hget, -⟩ := h.takes list hlast hlist
    have hmode : mode ≠ .async := by
      intro hasync
      rw [getGroup, if_pos hasync] at hget
      exact nomatch hget
    rw [getGroup_eq hmode hlast hlist, groupGot, Option.some.injEq] at hget
    exact ⟨hmode, (groupTaken_eq_iff hlist).mp (congrArg GroupGetEnd.groupList hget)⟩
  · intro h
    refine ⟨?_, ?_⟩
    · intro list hlast hlist
      obtain ⟨hmode, henough⟩ := h list hlast hlist
      have htaken := (groupTaken_eq_iff hlist).mpr henough
      refine ⟨_, ?_, splits_removeAll (wants hdr (some group)) quantity.toNat list.2⟩
      rw [getGroup_eq hmode hlast hlist, groupGot, htaken]
      rfl
    · intro groupList left hget
      by_cases hasync : mode = .async
      · refine ⟨hasync, ?_⟩
        by_contra hsome
        have hlast : (looks hdr mode microSec group events waits).getLast? = some events := by
          rw [looks, if_pos (.inl hasync)]
          rfl
        exact (h events hlast hsome).1 hasync
      · rw [getGroup, if_neg hasync, look_eq quantity events fun quantity =>
          waitGroup hdr mode microSec group quantity 0 events waits] at hget
        split_ifs at hget
        · exact absurd hget waitGroup_ne_empty
        · exact nomatch hget

end Right

/-- Events below 10 are in group 1, the others are not. -/
def smallInGroup (event : ℕ) : EventHeader :=
  { EventHeader.init with group := if event < 10 then 1 else 2 }

/-- **An asynchronous read of a list with an event of its group** finds the list empty; and a
timed read of two events, which has seen one event of another group before, gets one. -/
theorem getGroup_not_right :
    ¬ GroupReadRight smallInGroup .async 0 1 1 ⟨[5], by decide⟩ [] ∧
      ¬ GroupReadRight smallInGroup .timed 1000000 1 2 ⟨[10], by decide⟩
        [⟨⟨[10, 5, 6], by decide⟩, false, 3⟩] := by
  constructor
  · intro h
    obtain ⟨left, hget, -⟩ := h.takes ⟨[5], by decide⟩ rfl (by decide)
    exact nomatch hget
  · intro h
    obtain ⟨left, hget, -⟩ := h.takes ⟨[10, 5, 6], by decide⟩ (by decide) (by decide)
    have hgot : getGroup smallInGroup .timed 1000000 1 2 ⟨[10], by decide⟩
        [⟨⟨[10, 5, 6], by decide⟩, false, 3⟩] = some ⟨.ok, [5], [10, 6]⟩ := by decide
    rw [hgot] at hget
    have hlist : [5] = [5, 6] := congrArg GroupGetEnd.groupList (Option.some.inj hget)
    exact absurd hlist (by decide)

end EventTransfer
