import EventTransfer.Lib.LinkedHeap
import EventTransfer.Lib.StoreProgram

/-!
# Events and event lists

The events of an ET system are a fixed array in shared memory (`et_event`).  An
event is named here by its place in the array; a pointer to an event is an
`Option ℕ`, `none` being `NULL`.  The translations between the address spaces
of the processes (`ET_PEVENT2USR`, `ET_PEVENT2ET`) keep the place of an event
and so are the identity.  The one use of them on `NULL` gives an address that is
no event; it is `none` as well.

The array is kept field by field: the two fields every list operation rewrites,
`next` and `owner`, are functions of their own, the rest is the event's header.

A list (`et_list`) is the header of a singly linked list in that array.  Its
empty state is `cnt = 0`: the two pointers of an empty list are left over from
earlier use and mean nothing.
-/

namespace EventTransfer

open LinkedHeap

/-- `ET_SYS`: the owner of every event that is in a list. -/
def etSys : ℤ := -1

/-- The return codes of the event and station routines. -/
inductive Ret
  | ok
  | error
  | errorToomany
  | errorExists
  | errorWakeup
  | errorTimeout
  | errorEmpty
  | errorBusy
  deriving DecidableEq, Repr

/-- `ET_LOW` and `ET_HIGH`. -/
inductive Priority
  | low
  | high
  deriving DecidableEq, Repr

/-- `ET_EVENT_NEW` and `ET_EVENT_USED`. -/
inductive Age
  | new
  | used
  deriving DecidableEq, Repr

/-- `ET_EVENT_TEMP` and `ET_EVENT_NORMAL`. -/
inductive Temp
  | temp
  | normal
  deriving DecidableEq, Repr

/-- `ET_DATA_OK`, `ET_DATA_CORRUPT` and `ET_DATA_POSSIBLY_CORRUPT`. -/
inductive DataStatus
  | ok
  | corrupt
  | possiblyCorrupt
  deriving DecidableEq, Repr

/-- The fields of an `et_event` other than its link and its owner. -/
structure EventHeader where
  priority : Priority
  age : Age
  temp : Temp
  datastatus : DataStatus
  group : ℕ
  length : ℕ
  memsize : ℕ
  control : List ℤ
  modify : Option Age
  deriving DecidableEq, Repr

/-- The values `et_init_event` gives the header. -/
def EventHeader.init : EventHeader :=
  ⟨.low, .new, .normal, .ok, 0, 0, 0, List.replicate 6 0, none⟩

/-- The array of events. -/
structure Events where
  next : ℕ → Option ℕ
  owner : ℕ → ℤ
  hdr : ℕ → EventHeader

namespace Events

/-- `p->next = v`.  A store through a null pointer changes nothing here; the
list routines never make one on a well-formed list. -/
def setNext (ev : Events) (p v : Option ℕ) : Events :=
  match p with
  | some e => { ev with next := Function.update ev.next e v }
  | none => ev

/-- `e->owner = a`. -/
def setOwner (ev : Events) (e : ℕ) (a : ℤ) : Events :=
  { ev with owner := Function.update ev.owner e a }

/-- The events of `es` given to `a`, one after the other. -/
def setOwners (ev : Events) (es : List ℕ) (a : ℤ) : Events :=
  es.foldl (fun ev e => ev.setOwner e a) ev

/-- `e->priority == ET_HIGH`. -/
def isHigh (ev : Events) (e : ℕ) : Bool := (ev.hdr e).priority = .high

@[simp] theorem setNext_some_next (ev : Events) (e : ℕ) (v : Option ℕ) :
    (ev.setNext (some e) v).next = Function.update ev.next e v := rfl

@[simp] theorem setNext_owner (ev : Events) (p v : Option ℕ) :
    (ev.setNext p v).owner = ev.owner := by cases p <;> rfl

@[simp] theorem setNext_hdr (ev : Events) (p v : Option ℕ) :
    (ev.setNext p v).hdr = ev.hdr := by cases p <;> rfl

@[simp] theorem setOwner_next (ev : Events) (e : ℕ) (a : ℤ) :
    (ev.setOwner e a).next = ev.next := rfl

@[simp] theorem setOwner_owner (ev : Events) (e : ℕ) (a : ℤ) :
    (ev.setOwner e a).owner = Function.update ev.owner e a := rfl

@[simp] theorem setOwner_hdr (ev : Events) (e : ℕ) (a : ℤ) :
    (ev.setOwner e a).hdr = ev.hdr := rfl

@[simp] theorem setNext_isHigh (ev : Events) (p v : Option ℕ) :
    (ev.setNext p v).isHigh = ev.isHigh := by funext e; simp [isHigh]

@[simp] theorem setOwner_isHigh (ev : Events) (e : ℕ) (a : ℤ) :
    (ev.setOwner e a).isHigh = ev.isHigh := rfl

@[simp] theorem setOwners_nil (ev : Events) (a : ℤ) : ev.setOwners [] a = ev := rfl

@[simp] theorem setOwners_cons (ev : Events) (e : ℕ) (es : List ℕ) (a : ℤ) :
    ev.setOwners (e :: es) a = (ev.setOwner e a).setOwners es a := rfl

@[simp] theorem setOwners_next (ev : Events) (es : List ℕ) (a : ℤ) :
    (ev.setOwners es a).next = ev.next := by
  induction es generalizing ev with
  | nil => rfl
  | cons e es ih => exact ih _

@[simp] theorem setOwners_hdr (ev : Events) (es : List ℕ) (a : ℤ) :
    (ev.setOwners es a).hdr = ev.hdr := by
  induction es generalizing ev with
  | nil => rfl
  | cons e es ih => exact ih _

theorem setOwners_owner (ev : Events) (es : List ℕ) (a : ℤ) (e : ℕ) :
    (ev.setOwners es a).owner e = if e ∈ es then a else ev.owner e := by
  induction es generalizing ev with
  | nil => simp
  | cons b es ih =>
      rw [setOwners_cons, ih, setOwner_owner, Function.update_apply]
      by_cases hb : e = b
      · simp [hb]
      · simp [hb]

end Events

/-- A header stays right when a node that is not in its list is linked. -/
theorem spans_setNext_of_notMem {ev : Events} {first last : Option ℕ} {xs : List ℕ}
    {e : ℕ} (h : Spans ev.next first last xs) (he : e ∉ xs) (v : Option ℕ) :
    Spans (ev.setNext (some e) v).next first last xs := by
  refine h.congr fun a ha => ?_
  have hae : a ≠ e := ne_of_mem_of_not_mem ha he
  exact Function.update_of_ne hae _ _

/-- The same for the link of the last node. -/
theorem spans_setNext_last {ev : Events} {first last : Option ℕ} {ys : List ℕ} {b : ℕ}
    (h : Spans ev.next first last (ys ++ [b])) (v : Option ℕ) :
    Spans (ev.setNext (some b) v).next first last (ys ++ [b]) := by
  refine h.congr_dropLast fun a ha => ?_
  rw [List.dropLast_concat] at ha
  have hd := List.nodup_append.mp h.nodup
  exact Function.update_of_ne (hd.2.2 a ha b (by simp)) _ _

/-- A station's input or output list (`et_list`). -/
@[ext]
structure EtList where
  cnt : ℕ
  lasthigh : ℕ
  eventsTry : ℕ
  eventsIn : ℕ
  eventsOut : ℕ
  firstevent : Option ℕ
  lastevent : Option ℕ
  deriving DecidableEq, Repr

/-- `et_init_llist`. -/
def EtList.init : EtList := ⟨0, 0, 0, 0, 0, none, none⟩

/-- The list `pl` holds exactly the events `xs`, in this order: its count is their
number, and they are the nodes from `firstevent` to `lastevent`. -/
structure IsList (ev : Events) (pl : EtList) (xs : List ℕ) : Prop where
  cnt_eq : pl.cnt = xs.length
  spans : Spans ev.next pl.firstevent pl.lastevent xs

theorem IsList.init (ev : Events) : IsList ev EtList.init [] := ⟨rfl, .nil _ _ _⟩

/-- **Frame**: a list only depends on the links of its own events. -/
theorem IsList.congr {ev ev' : Events} {pl : EtList} {xs : List ℕ} (h : IsList ev pl xs)
    (agree : ∀ e ∈ xs, ev'.next e = ev.next e) : IsList ev' pl xs :=
  ⟨h.cnt_eq, h.spans.congr agree⟩

/-- The value of `fix.in.call`: which kind of call changes an input list. -/
inductive FixCall
  | read
  | dump
  deriving DecidableEq, Repr

/-- Notes for the repair of an input list (`struct et_fixin`). -/
structure FixIn where
  first : Option ℕ
  eventsin : ℕ
  start : ℕ
  cnt : ℕ
  num : ℕ
  call : FixCall
  deriving DecidableEq, Repr

/-- Notes for the repair of an output list (`struct et_fixout`). -/
structure FixOut where
  start : ℕ
  cnt : ℕ
  num : ℕ
  deriving DecidableEq, Repr

/-- The values `et_init_station` gives the repair notes of an input list. -/
def FixIn.init : FixIn := ⟨none, 0, 0, 0, 0, .read⟩

/-- The values `et_init_station` gives the repair notes of an output list. -/
def FixOut.init : FixOut := ⟨0, 0, 0⟩

/-- The part of shared memory a routine working on one list changes: the events,
the list, and the station's repair notes `F` for that list. -/
structure ListMem (F : Type) where
  ev : Events
  pl : EtList
  fix : F

end EventTransfer
