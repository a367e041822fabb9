import EventTransfer.JavaGroupRead

/-!
# The order of events in a Java list

`EventList` keeps its events in one array, those of high priority in front of the others, and
counts them in `lastHigh`.  The count is kept for the output lists of stations only, and only
while they have events: `put` sets it to zero for an empty list, and `putReverse` counts anew.
GRAND_CENTRAL takes all events as if they were of low priority (`putInLow`).

* `ListUse` and `EventList.Uses` — which methods are called on which lists.  Conductors have the
  events of high priority first in what they put (`Distributes.given_highsFirst`).
* `EventList.InOrder` — the invariant of the list.
* `EventList.Does` — what a method adds or removes, and where.
* `eventList_inOrder` — in every state that calls lead to, both hold.
-/

namespace EventTransfer

open StepRun

/-! ## The methods -/

/-- **A list**, with the headers of all events. -/
structure EventList where
  hdr : ℕ → EventHeader
  events : List ℕ
  lastHigh : ℕ

/-- The methods.  `putInLow` is `putInGC`, too; `getAll` is the `get` of the conductor. -/
inductive ListCall
  | put (newEvents : List ℕ)
  | putReverse (newEvents : List ℕ)
  | putAll (newEvents : List ℕ)
  | putInLow (newEvents : List ℕ)
  | getAll
  | get (quantity : ℤ)
  | getGroup (mode : WaitMode) (quantity : ℤ) (group : ℕ)
  deriving DecidableEq, Repr

/-- The loop of `putAll`: the new events of high priority go to the places from `index` on, and the
rest of the new events is left. -/
def putAllHigh (hdr : ℕ → EventHeader) : ℕ → List ℕ → List ℕ → List ℕ × List ℕ
  | _, events, [] => (events, [])
  | index, events, ev :: newEvents =>
      if isHigh hdr ev then putAllHigh hdr (index + 1) (events.insertIdx index ev) newEvents
      else (events, ev :: newEvents)

namespace EventList

variable (s : EventList)

/-- The number of events of high priority that the list begins with. -/
def highCount : ℕ := (s.events.takeWhile (isHigh s.hdr)).length

/-- **A call**, up to its end or to a wait: what it returns, unless it throws or waits, and the
list. -/
def call : ListCall → Option (List ℕ) × EventList
  | .put newEvents =>
      let r := putLoop s.hdr (if s.events = [] then 0 else s.lastHigh) s.events newEvents
      (if r.2.2 then some [] else none, { s with events := r.2.1, lastHigh := r.1 })
  | .putReverse newEvents =>
      let r := putReverseLoop s.hdr (if s.events = [] then 0 else s.highCount) s.events newEvents
      (some [], { s with events := r.2, lastHigh := r.1 })
  | .putAll [] => (if s.events = [] then some [] else none, s)
  | .putAll (ev :: newEvents) =>
      if s.events = [] ∨ isHigh s.hdr ev = false then
        (some [], { s with events := s.events ++ ev :: newEvents })
      else
        let r := putAllHigh s.hdr s.highCount s.events (ev :: newEvents)
        (some [], { s with events := r.1 ++ r.2 })
  | .putInLow newEvents => (some [], { s with events := s.events ++ newEvents })
  | .getAll => (some s.events, { s with events := [] })
  | .get quantity =>
      if s.events = [] then (none, s)
      else
        let quantity : ℤ := if quantity > s.events.length then s.events.length else quantity
        -- `subList` throws
        if quantity < 0 then (none, s)
        else
          (some (s.events.take quantity.toNat), { s with events := s.events.drop quantity.toNat })
  | .getGroup mode quantity group =>
      if mode = .async ∨ s.events = [] then (none, s)
      else
        let quantity : ℤ := if quantity > s.events.length then s.events.length else quantity
        let groupList := scanGroup s.hdr group quantity 0 s.events
        if groupList = [] then (none, s)
        else (some groupList, { s with events := s.events.filter (· ∉ groupList) })

end EventList

/-! ## Their callers -/

/-- What a list is for. -/
inductive ListUse
  | output
  | input
  | grandCentral
  deriving DecidableEq, Repr

/-- What happens to a list: a method is called, or somebody who has an event changes its header. -/
inductive ListAct
  | call (c : ListCall)
  | setHeader (e : ℕ) (h : EventHeader)

namespace EventList

/-- **The calls that are made**: clients put into output lists, and conductors take everything out
of them; conductors put into input lists, and clients take from these; events are restored to
either.  GRAND_CENTRAL gets its events in another way.  The header of an event in the list stays
as it is. -/
def Uses (use : ListUse) (s : EventList) : ListAct → Prop
  | .call (.put _) => use = .output
  | .call (.putReverse _) => use ≠ .grandCentral
  | .call (.putAll newEvents) =>
      use = .input ∧ newEvents ≠ [] ∧ HighsFirst (isHigh s.hdr) newEvents
  | .call (.putInLow _) => use = .grandCentral
  | .call .getAll => use = .output
  | .call (.get _) => use ≠ .output
  | .call (.getGroup ..) => use ≠ .output
  | .setHeader e _ => e ∉ s.events

def act (s : EventList) : ListAct → EventList
  | .call c => (s.call c).2
  | .setHeader e h => { s with hdr := Function.update s.hdr e h }

end EventList

/-- **Any sequence of calls** on a list that is new. -/
def eventList : Machine EventList ListAct :=
  .ofStep (fun s => s.events = [] ∧ s.lastHigh = 0) fun s a => some (s.act a)

/-! ## What they are for -/

namespace EventList

/-- The events of one priority, in their order. -/
def ofPriority (s : EventList) (high : Bool) : List ℕ :=
  s.events.filter fun e => isHigh s.hdr e = high

/-- **The list is in order.** -/
structure InOrder (use : ListUse) (s : EventList) : Prop where
  highsFirst : use ≠ .grandCentral → HighsFirst (isHigh s.hdr) s.events
  lastHigh : use = .output → s.events ≠ [] → s.lastHigh = (s.ofPriority true).length

/-- **What a method does**: new events come behind those of their priority, restored events in
front of them, one by one; and what is taken is from the front, or the first of its group. -/
def Does (s : EventList) : ListCall → Option (List ℕ) → EventList → Prop
  | .put newEvents, r, t | .putAll newEvents, r, t =>
      r = some [] ∧ t.events.Perm (s.events ++ newEvents) ∧
        ∀ high, t.ofPriority high =
          s.ofPriority high ++ newEvents.filter fun e => isHigh s.hdr e = high
  | .putReverse newEvents, r, t =>
      r = some [] ∧ t.events.Perm (s.events ++ newEvents) ∧
        ∀ high, t.ofPriority high =
          (newEvents.filter fun e => isHigh s.hdr e = high).reverse ++ s.ofPriority high
  | .putInLow newEvents, r, t => r = some [] ∧ t.events = s.events ++ newEvents
  | .getAll, r, t => r = some s.events ∧ t.events = []
  | .get quantity, r, t =>
      r = none ∧ t = s ∨ ∃ taken, r = some taken ∧ taken ++ t.events = s.events ∧
        (taken.length : ℤ) = min quantity s.events.length
  | .getGroup _ _ group, r, t =>
      r = none ∧ t = s ∨ ∃ taken, r = some taken ∧ taken ≠ [] ∧
        taken <+: s.events.filter (wants s.hdr (some group)) ∧
        t.events = s.events.filter (· ∉ taken) ∧
        (s.events.Nodup → Splits s.events taken t.events)

end EventList

/-! ## Two priorities -/

section Classes

variable {high : ℕ → Bool} {hs ls : List ℕ}

/-- What is in front and what is behind. -/
theorem filter_shelved (hh : ∀ e ∈ hs, high e = true) (hl : ∀ e ∈ ls, high e = false) (b : Bool) :
    (hs ++ ls).filter (fun e => high e = b) = if b then hs else ls := by
  rw [List.filter_append]
  cases b with
  | true =>
      have hnone : ls.filter (fun e => decide (high e = true)) = [] :=
        List.filter_eq_nil_iff.mpr fun e he => by simp [hl e he]
      have hall : hs.filter (fun e => decide (high e = true)) = hs :=
        List.filter_eq_self.mpr fun e he => by simp [hh e he]
      rw [hnone, hall, List.append_nil, if_pos rfl]
  | false =>
      have hnone : hs.filter (fun e => decide (high e = false)) = [] :=
        List.filter_eq_nil_iff.mpr fun e he => by simp [hh e he]
      have hall : ls.filter (fun e => decide (high e = false)) = ls :=
        List.filter_eq_self.mpr fun e he => by simp [hl e he]
      rw [hnone, hall, List.nil_append, if_neg Bool.false_ne_true]

theorem perm_filter_append_filter (high : ℕ → Bool) (xs : List ℕ) :
    (xs.filter (high · = true) ++ xs.filter (high · = false)).Perm xs := by
  have hnot : xs.filter (fun e => decide (high e = false)) =
      xs.filter fun e => !decide (high e = true) := by
    refine List.filter_congr fun e _ => ?_
    cases high e <;> rfl
  rw [hnot]
  exact List.filter_append_perm _ xs

/-- Two lists with the same events of either priority. -/
theorem perm_of_filter (high : ℕ → Bool) {xs ys : List ℕ}
    (h : ∀ b, (xs.filter fun e => high e = b).Perm (ys.filter fun e => high e = b)) :
    xs.Perm ys :=
  ((perm_filter_append_filter high xs).symm.trans ((h true).append (h false))).trans
    (perm_filter_append_filter high ys)

end Classes

/-! ## What the methods do -/

section Methods

variable (hdr : ℕ → EventHeader) (hs ls : List ℕ)

/-- **`put`, event by event**: those of high priority come behind the others of that priority. -/
theorem putLoop_shelved (newEvents : List ℕ) :
    putLoop hdr hs.length (hs ++ ls) newEvents =
      ((hs ++ newEvents.filter (isHigh hdr · = true)).length,
        (hs ++ newEvents.filter (isHigh hdr · = true)) ++
          (ls ++ newEvents.filter (isHigh hdr · = false)), true) := by
  induction newEvents generalizing hs ls with
  | nil => simp [putLoop]
  | cons ev newEvents ih =>
      rw [putLoop]
      by_cases hev : isHigh hdr ev = true
      · have hle : hs.length ≤ (hs ++ ls).length := by
          rw [List.length_append]
          exact Nat.le_add_right _ _
        have hput : hs ++ ev :: ls = (hs ++ [ev]) ++ ls := by simp
        have hlength : hs.length + 1 = (hs ++ [ev]).length := by simp
        rw [if_pos hev, if_pos hle, insertIdx_append, hput, hlength, ih]
        simp [hev]
      · have hlow : isHigh hdr ev = false := Bool.eq_false_iff.mpr hev
        rw [if_neg hev, List.append_assoc, ih]
        simp [hlow]

/-- **`putReverse`, event by event**: each comes in front of those of its priority. -/
theorem putReverseLoop_shelved (newEvents : List ℕ) :
    putReverseLoop hdr hs.length (hs ++ ls) newEvents =
      (((newEvents.filter (isHigh hdr · = true)).reverse ++ hs).length,
        ((newEvents.filter (isHigh hdr · = true)).reverse ++ hs) ++
          ((newEvents.filter (isHigh hdr · = false)).reverse ++ ls)) := by
  induction newEvents generalizing hs ls with
  | nil => simp [putReverseLoop]
  | cons ev newEvents ih =>
      rw [putReverseLoop]
      by_cases hev : isHigh hdr ev = true
      · have hput : ev :: (hs ++ ls) = (ev :: hs) ++ ls := rfl
        have hlength : hs.length + 1 = (ev :: hs).length := rfl
        rw [if_pos hev, hput, hlength, ih]
        simp [hev]
      · have hlow : isHigh hdr ev = false := Bool.eq_false_iff.mpr hev
        rw [if_neg hev, insertIdx_append, ih]
        simp [hlow]

/-- The loop of `putAll` takes the events of high priority that the new events begin with. -/
theorem putAllHigh_shelved (newEvents : List ℕ) :
    putAllHigh hdr hs.length (hs ++ ls) newEvents =
      ((hs ++ newEvents.takeWhile (isHigh hdr)) ++ ls, newEvents.dropWhile (isHigh hdr)) := by
  induction newEvents generalizing hs with
  | nil => simp [putAllHigh]
  | cons ev newEvents ih =>
      rw [putAllHigh]
      by_cases hev : isHigh hdr ev = true
      · have hput : hs ++ ev :: ls = (hs ++ [ev]) ++ ls := by simp
        have hlength : hs.length + 1 = (hs ++ [ev]).length := by simp
        rw [if_pos hev, insertIdx_append, hput, hlength, ih, List.takeWhile_cons_of_pos hev,
          List.dropWhile_cons_of_pos hev]
        simp
      · rw [if_neg hev, List.takeWhile_cons_of_neg hev, List.dropWhile_cons_of_neg hev,
          List.append_nil]

end Methods

namespace EventList

variable {use : ListUse} {s t : EventList} {hs ls newEvents : List ℕ}

theorem mem_ofPriority {high : Bool} {e : ℕ} (he : e ∈ s.ofPriority high) :
    isHigh s.hdr e = high :=
  of_decide_eq_true (List.mem_filter.mp he).2

/-- What is put into the list, of one priority. -/
theorem mem_class {high : Bool} {e : ℕ}
    (he : e ∈ newEvents.filter fun e => isHigh s.hdr e = high) : isHigh s.hdr e = high :=
  of_decide_eq_true (List.mem_filter.mp he).2

/-- **A list with its events of high priority in front.** -/
structure Shelved (s : EventList) (hs ls : List ℕ) : Prop where
  events : s.events = hs ++ ls
  high : ∀ e ∈ hs, isHigh s.hdr e = true
  low : ∀ e ∈ ls, isHigh s.hdr e = false

theorem Shelved.ofPriority (h : s.Shelved hs ls) (high : Bool) :
    s.ofPriority high = if high then hs else ls := by
  rw [EventList.ofPriority, h.events]
  exact filter_shelved h.high h.low high

theorem Shelved.highsFirst (h : s.Shelved hs ls) : HighsFirst (isHigh s.hdr) s.events := by
  rw [h.events]
  refine highsFirst_append h.high fun e he => h.low e ?_
  exact (List.dropWhile_sublist _).subset he

theorem shelved_of_highsFirst (h : HighsFirst (isHigh s.hdr) s.events) :
    s.Shelved (s.ofPriority true) (s.ofPriority false) :=
  ⟨h.filter_append_filter.symm, fun _ he => mem_ofPriority he, fun _ he => mem_ofPriority he⟩

theorem highCount_eq (h : HighsFirst (isHigh s.hdr) s.events) :
    s.highCount = (s.ofPriority true).length := by
  rw [highCount, h.takeWhile_eq]
  rfl

/-- Nothing is lost and nothing comes in addition, if that holds of either priority. -/
theorem perm_of_ofPriority (hhdr : t.hdr = s.hdr)
    (h : ∀ high, (t.ofPriority high).Perm
      (s.ofPriority high ++ newEvents.filter fun e => isHigh s.hdr e = high)) :
    t.events.Perm (s.events ++ newEvents) := by
  refine perm_of_filter (isHigh s.hdr) fun high => ?_
  rw [List.filter_append]
  have hclass := h high
  rw [EventList.ofPriority, hhdr] at hclass
  exact hclass

/-! ### Method by method -/

theorem Shelved.inOrder (h : t.Shelved hs ls) (hlast : use = .output → t.lastHigh = hs.length) :
    t.InOrder use := by
  refine ⟨fun _ => h.highsFirst, fun huse _ => ?_⟩
  rw [hlast huse, h.ofPriority, if_pos rfl]

theorem call_put (h : s.InOrder .output) (newEvents : List ℕ) :
    s.call (.put newEvents) =
      (some [], { s with
        events := (s.ofPriority true ++ newEvents.filter (isHigh s.hdr · = true)) ++
          (s.ofPriority false ++ newEvents.filter (isHigh s.hdr · = false))
        lastHigh := (s.ofPriority true ++ newEvents.filter (isHigh s.hdr · = true)).length }) := by
  have hstart : (if s.events = [] then 0 else s.lastHigh) = (s.ofPriority true).length := by
    split
    case isTrue hempty =>
      rw [EventList.ofPriority, hempty]
      rfl
    case isFalse hne => exact h.lastHigh rfl hne
  have hloop := putLoop_shelved s.hdr (s.ofPriority true) (s.ofPriority false) newEvents
  rw [← (shelved_of_highsFirst (h.highsFirst nofun)).events] at hloop
  rw [call, hstart, hloop]
  rfl

theorem call_putReverse (h : HighsFirst (isHigh s.hdr) s.events) (newEvents : List ℕ) :
    s.call (.putReverse newEvents) =
      (some [], { s with
        events := ((newEvents.filter (isHigh s.hdr · = true)).reverse ++ s.ofPriority true) ++
          ((newEvents.filter (isHigh s.hdr · = false)).reverse ++ s.ofPriority false)
        lastHigh :=
          ((newEvents.filter (isHigh s.hdr · = true)).reverse ++ s.ofPriority true).length }) := by
  have hstart : (if s.events = [] then 0 else s.highCount) = (s.ofPriority true).length := by
    split
    case isTrue hempty =>
      rw [EventList.ofPriority, hempty]
      rfl
    case isFalse => exact highCount_eq h
  have hloop := putReverseLoop_shelved s.hdr (s.ofPriority true) (s.ofPriority false) newEvents
  rw [← (shelved_of_highsFirst h).events] at hloop
  rw [call, hstart, hloop]

theorem call_putAll (h : HighsFirst (isHigh s.hdr) s.events) (hne : newEvents ≠ [])
    (hnew : HighsFirst (isHigh s.hdr) newEvents) :
    s.call (.putAll newEvents) =
      (some [], { s with
        events := (s.ofPriority true ++ newEvents.filter (isHigh s.hdr · = true)) ++
          (s.ofPriority false ++ newEvents.filter (isHigh s.hdr · = false)) }) := by
  obtain ⟨ev, rest, rfl⟩ := List.exists_cons_of_ne_nil hne
  have hsplit := hnew.filter_append_filter
  rw [call]
  split
  case isTrue hcase =>
    refine congrArg (fun events => (some [], { s with events := events })) ?_
    rcases hcase with hempty | hlow
    · rw [EventList.ofPriority, EventList.ofPriority, hempty]
      exact hsplit.symm
    · -- the new events are all of low priority
      have hnone : (ev :: rest).filter (fun e => decide (isHigh s.hdr e = true)) = [] := by
        rw [← hnew.takeWhile_eq, List.takeWhile_cons_of_neg (by simp [hlow])]
      rw [hnone, List.nil_append] at hsplit
      rw [hnone, hsplit, List.append_nil, ← List.append_assoc,
        ← (shelved_of_highsFirst h).events]
  case isFalse =>
    have hloop := putAllHigh_shelved s.hdr (s.ofPriority true) (s.ofPriority false) (ev :: rest)
    rw [← (shelved_of_highsFirst h).events, hnew.takeWhile_eq, hnew.dropWhile_eq] at hloop
    rw [highCount_eq h, hloop]
    dsimp only
    rw [List.append_assoc (_ ++ _)]

/-- New events come behind those of their priority. -/
theorem shelved_behind (s : EventList) (newEvents : List ℕ) (lastHigh : ℕ) :
    Shelved { s with
      events := (s.ofPriority true ++ newEvents.filter (isHigh s.hdr · = true)) ++
        (s.ofPriority false ++ newEvents.filter (isHigh s.hdr · = false))
      lastHigh := lastHigh }
      (s.ofPriority true ++ newEvents.filter (isHigh s.hdr · = true))
      (s.ofPriority false ++ newEvents.filter (isHigh s.hdr · = false)) :=
  ⟨rfl, fun _ he => (List.mem_append.mp he).elim mem_ofPriority mem_class,
    fun _ he => (List.mem_append.mp he).elim mem_ofPriority mem_class⟩

/-- Restored events come in front of those of their priority. -/
theorem shelved_before (s : EventList) (newEvents : List ℕ) (lastHigh : ℕ) :
    Shelved { s with
      events := ((newEvents.filter (isHigh s.hdr · = true)).reverse ++ s.ofPriority true) ++
        ((newEvents.filter (isHigh s.hdr · = false)).reverse ++ s.ofPriority false)
      lastHigh := lastHigh }
      ((newEvents.filter (isHigh s.hdr · = true)).reverse ++ s.ofPriority true)
      ((newEvents.filter (isHigh s.hdr · = false)).reverse ++ s.ofPriority false) := by
  have hclass : ∀ {high : Bool} {e : ℕ},
      e ∈ (newEvents.filter fun e => isHigh s.hdr e = high).reverse ++ s.ofPriority high →
        isHigh s.hdr e = high := fun he =>
    (List.mem_append.mp he).elim (fun h => mem_class (List.mem_reverse.mp h)) mem_ofPriority
  exact ⟨rfl, fun _ he => hclass he, fun _ he => hclass he⟩

/-- What the list has of one priority, if a part of it is in front of the others. -/
theorem ofPriority_eq (f : Bool → List ℕ) (h : t.Shelved (f true) (f false)) (high : Bool) :
    t.ofPriority high = f high := by
  rw [h.ofPriority]
  cases high <;> rfl

theorem does_put (h : s.InOrder .output) (newEvents : List ℕ) :
    (s.call (.put newEvents)).2.InOrder .output ∧
      s.Does (.put newEvents) (s.call (.put newEvents)).1 (s.call (.put newEvents)).2 := by
  rw [call_put h]
  have hshelved := s.shelved_behind newEvents
    (s.ofPriority true ++ newEvents.filter (isHigh s.hdr · = true)).length
  have hclass := fun high => ofPriority_eq
    (fun high => s.ofPriority high ++ newEvents.filter (isHigh s.hdr · = high)) hshelved high
  exact ⟨hshelved.inOrder fun _ => rfl, rfl, perm_of_ofPriority rfl fun high => .of_eq (hclass high),
    hclass⟩

theorem does_putReverse (h : HighsFirst (isHigh s.hdr) s.events) (newEvents : List ℕ) :
    (s.call (.putReverse newEvents)).2.InOrder use ∧
      s.Does (.putReverse newEvents) (s.call (.putReverse newEvents)).1
        (s.call (.putReverse newEvents)).2 := by
  rw [call_putReverse h]
  have hshelved := s.shelved_before newEvents
    ((newEvents.filter (isHigh s.hdr · = true)).reverse ++ s.ofPriority true).length
  have hclass := fun high => ofPriority_eq
    (fun high => (newEvents.filter (isHigh s.hdr · = high)).reverse ++ s.ofPriority high)
    hshelved high
  refine ⟨hshelved.inOrder fun _ => rfl, rfl, perm_of_ofPriority rfl fun high => ?_, hclass⟩
  rw [hclass high]
  exact List.perm_append_comm.trans ((List.reverse_perm _).append_left _)

theorem does_putAll (h : HighsFirst (isHigh s.hdr) s.events) (hne : newEvents ≠ [])
    (hnew : HighsFirst (isHigh s.hdr) newEvents) :
    (s.call (.putAll newEvents)).2.InOrder .input ∧
      s.Does (.putAll newEvents) (s.call (.putAll newEvents)).1 (s.call (.putAll newEvents)).2 := by
  rw [call_putAll h hne hnew]
  have hshelved := s.shelved_behind newEvents s.lastHigh
  have hclass := fun high => ofPriority_eq
    (fun high => s.ofPriority high ++ newEvents.filter (isHigh s.hdr · = high)) hshelved high
  exact ⟨hshelved.inOrder nofun, rfl, perm_of_ofPriority rfl fun high => .of_eq (hclass high),
    hclass⟩

/-- Less of a list that is in order is in order. -/
theorem InOrder.sublist (h : s.InOrder use) (huse : use ≠ .output) {events : List ℕ}
    (hsub : events.Sublist s.events) : InOrder use { s with events := events } :=
  ⟨fun hgc => (h.highsFirst hgc).sublist hsub, fun hout => absurd hout huse⟩

theorem does_get (h : s.InOrder use) (huse : use ≠ .output) (quantity : ℤ) :
    (s.call (.get quantity)).2.InOrder use ∧
      s.Does (.get quantity) (s.call (.get quantity)).1 (s.call (.get quantity)).2 := by
  rw [call]
  split
  case isTrue => exact ⟨h, .inl ⟨rfl, rfl⟩⟩
  case isFalse =>
    have hcut : (if quantity > (s.events.length : ℤ) then (s.events.length : ℤ) else quantity) =
        min quantity s.events.length := by
      rw [min_def]
      split_ifs <;> omega
    rw [hcut]
    dsimp only
    split
    case isTrue => exact ⟨h, .inl ⟨rfl, rfl⟩⟩
    case isFalse hpos =>
      refine ⟨h.sublist huse (List.drop_sublist _ _), .inr ⟨_, rfl, List.take_append_drop _ _, ?_⟩⟩
      rw [List.length_take]
      omega

theorem does_getGroup (h : s.InOrder use) (huse : use ≠ .output) (mode : WaitMode) (quantity : ℤ)
    (group : ℕ) :
    (s.call (.getGroup mode quantity group)).2.InOrder use ∧
      s.Does (.getGroup mode quantity group) (s.call (.getGroup mode quantity group)).1
        (s.call (.getGroup mode quantity group)).2 := by
  rw [call]
  split
  case isTrue => exact ⟨h, .inl ⟨rfl, rfl⟩⟩
  case isFalse =>
    dsimp only
    generalize (if quantity > (s.events.length : ℤ) then (s.events.length : ℤ) else quantity) = n
    split
    case isTrue => exact ⟨h, .inl ⟨rfl, rfl⟩⟩
    case isFalse hsome =>
      refine ⟨h.sublist huse List.filter_sublist, .inr ⟨_, rfl, hsome, ?_, rfl, fun hnodup => ?_⟩⟩
      · rw [scanGroup_eq]
        exact List.take_prefix _ _
      · rw [scanGroup_eq]
        exact splits_removeAll _ _ hnodup

/-- **One call.** -/
theorem InOrder.call (h : s.InOrder use) {c : ListCall} (huses : s.Uses use (.call c)) :
    (s.call c).2.InOrder use ∧ s.Does c (s.call c).1 (s.call c).2 := by
  cases c with
  | put newEvents =>
      obtain rfl : use = .output := huses
      exact does_put h newEvents
  | putReverse newEvents => exact does_putReverse (h.highsFirst huses) newEvents
  | putAll newEvents =>
      obtain ⟨rfl, hne, hnew⟩ := huses
      exact does_putAll (h.highsFirst nofun) hne hnew
  | putInLow newEvents =>
      obtain rfl : use = .grandCentral := huses
      exact ⟨⟨fun hc => absurd rfl hc, nofun⟩, rfl, rfl⟩
  | getAll =>
      have hnil : HighsFirst (isHigh s.hdr) [] := nofun
      exact ⟨⟨fun _ => hnil, fun _ hc => absurd rfl hc⟩, rfl, rfl⟩
  | get quantity => exact does_get h huses quantity
  | getGroup mode quantity group => exact does_getGroup h huses mode quantity group

/-- **The header of an event that is not in the list.** -/
theorem InOrder.setHeader (h : s.InOrder use) {e : ℕ} (he : e ∉ s.events) (hdr : EventHeader) :
    InOrder use { s with hdr := Function.update s.hdr e hdr } := by
  have hsame : ∀ e' ∈ s.events, isHigh (Function.update s.hdr e hdr) e' = isHigh s.hdr e' := by
    intro e' he'
    unfold isHigh
    rw [Function.update_of_ne (ne_of_mem_of_not_mem he' he)]
  refine ⟨fun hgc => (h.highsFirst hgc).congr hsame, fun hout hne => ?_⟩
  have hclass : ofPriority { s with hdr := Function.update s.hdr e hdr } true = s.ofPriority true :=
    List.filter_congr fun e' he' => by
      show decide (isHigh (Function.update s.hdr e hdr) e' = true) = _
      rw [hsame e' he']
  rw [hclass]
  exact h.lastHigh hout hne

end EventList

/-- **Lists keep the order of priorities, and lose nothing.**  In every state that calls lead to,
the list is in order, and every method does what it is for. -/
theorem eventList_inOrder {use : ListUse} {s : EventList}
    (h : eventList.Reach (EventList.Uses use) s) :
    s.InOrder use ∧ ∀ c, s.Uses use (.call c) → s.Does c (s.call c).1 (s.call c).2 := by
  have hinv : s.InOrder use := by
    refine h.invariant ?_ ?_
    · rintro s ⟨hempty, -⟩
      refine ⟨fun _ => ?_, fun _ hne => absurd hempty hne⟩
      rw [hempty]
      exact nofun
    · rintro s a t hs huses hstep
      obtain rfl := Option.some.inj hstep
      cases a with
      | call c => exact (hs.call huses).1
      | setHeader e hdr => exact hs.setHeader huses hdr
  exact ⟨hinv, fun c huses => (hinv.call huses).2⟩

/-- A new list; of the events only number 1 is of high priority. -/
def newList : EventList where
  hdr e := { EventHeader.init with priority := if e = 1 then .high else .low }
  events := []
  lastHigh := 0

theorem reach_newList (use : ListUse) : eventList.Reach (EventList.Uses use) newList :=
  .start ⟨rfl, rfl⟩

/-- Two events are put into an output list. -/
theorem eventList_inOrder_example : ∃ s, eventList.Reach (EventList.Uses .output) s ∧
    s.events = [1, 0] ∧ s.InOrder .output ∧ s.Does .getAll (some [1, 0]) (s.call .getAll).2 := by
  have hreach : eventList.Reach (EventList.Uses .output) (newList.call (.put [0, 1])).2 :=
    .step (.call (.put [0, 1])) (reach_newList .output) rfl rfl
  have hevents : (newList.call (.put [0, 1])).2.events = [1, 0] := by decide
  obtain ⟨horder, hdoes⟩ := eventList_inOrder hreach
  refine ⟨_, hreach, hevents, horder, ?_⟩
  have hgot : ((newList.call (.put [0, 1])).2.call .getAll).1 = some [1, 0] := congrArg some hevents
  have hget := hdoes .getAll rfl
  rwa [hgot] at hget

/-- **What is not kept.**  The conductor empties an output list, and `lastHigh` stays as it was.
GRAND_CENTRAL has an event of high priority behind one of low priority.  An event that has been
put twice is taken once, and is in the list no more. -/
theorem eventList_not_kept :
    (∃ s, eventList.Reach (EventList.Uses .output) s ∧ s.ofPriority true = [] ∧ s.lastHigh = 1) ∧
    (∃ s, eventList.Reach (EventList.Uses .grandCentral) s ∧
      ¬ HighsFirst (isHigh s.hdr) s.events) ∧
    ∃ s, eventList.Reach (EventList.Uses .input) s ∧ s.events = [0, 0] ∧
      (s.call (.getGroup .timed 1 0)).1 = some [0] ∧
      (s.call (.getGroup .timed 1 0)).2.events = [] := by
  refine ⟨?_, ?_, ?_⟩
  · have hput : eventList.Reach (EventList.Uses .output) (newList.call (.put [1])).2 :=
      .step (.call (.put [1])) (reach_newList .output) rfl rfl
    exact ⟨_, .step (.call .getAll) hput rfl rfl, rfl, by decide⟩
  · refine ⟨_, .step (.call (.putInLow [0, 1])) (reach_newList .grandCentral) rfl rfl, ?_⟩
    intro hfirst
    exact absurd (hfirst 1 (by decide)) (by decide)
  · have hlow : HighsFirst (isHigh newList.hdr) [0, 0] := by
      intro e he
      have hzero : e = 0 := by simpa using (List.dropWhile_sublist _).subset he
      subst hzero
      decide
    refine ⟨_, .step (.call (.putAll [0, 0])) (reach_newList .input) ⟨rfl, nofun, hlow⟩ rfl, ?_⟩
    decide

end EventTransfer
