import EventTransfer.JavaEvents
import EventTransfer.Lib.Overwrite
import EventTransfer.Lib.StepRun

/-!
# The buffers of the Java system's events

An `EtEventImpl` keeps its data twice: `data` is an array and `dataBuffer` a `ByteBuffer` that
wraps an array, the same one when the event is made.  `getData` gives the array under
`dataBuffer`; `setData` changes `data`, `length` and `memSize`.  `memSize` is the size that
`newEvents` and `netEvsPut` compare with what a client asks for, and that is sent to clients.

A `BufferStep` is what one request does to one event; the events of a batch are so many steps,
and the steps of all clients are in any order.  What the other fields of an event become is in
`EventTransfer.JavaEvents`.

* `BufferedEvent.put` — an event that is put, with whether the server accepts it.
* `BufferStep.getData_length` — the array that the server reads and writes never changes its size.
* `buffers_hold_iff` — in which runs every event's buffer holds its lengths.
-/

namespace EventTransfer

open Wire

/-! ## An event's storage -/

/-- The storage of an `EtEventImpl`.  `none` is the array that `dataBuffer` wraps. -/
structure BufferedEvent where
  data : Option (List Byte)
  dataBuffer : List Byte
  length : ℕ
  memSize : ℕ
  modify : Word
deriving DecidableEq

/-- `new byte[n]`. -/
def newBytes (n : ℕ) : List Byte := List.replicate n 0

namespace BufferedEvent

/-- The event of a system whose events have the given size, as the system makes it. -/
def create (eventSize : ℕ) : BufferedEvent :=
  { data := none, dataBuffer := newBytes eventSize, length := 0, memSize := eventSize, modify := 0 }

/-- `getData`. -/
def getData (e : BufferedEvent) : List Byte := e.dataBuffer

/-- `init`. -/
def init (e : BufferedEvent) : BufferedEvent := { e with length := 0, modify := 0 }

/-- `setData`; the buffer stays as it is. -/
def setData (bytes : List Byte) (e : BufferedEvent) : BufferedEvent :=
  { e with data := some bytes, length := bytes.length, memSize := bytes.length }

/-- `setMemSize`. -/
def setMemSize (memSize : ℕ) (e : BufferedEvent) : BufferedEvent := { e with memSize := memSize }

/-- `setModify`. -/
def setModify (modify : Word) (e : BufferedEvent) : BufferedEvent := { e with modify := modify }

/-- `setLengthFromServer`, of a length that is not negative. -/
def setLength (length : ℕ) (e : BufferedEvent) : BufferedEvent := { e with length := length }

/-- More memory for the event, as `newEvents` and `netEvsPut` get it. -/
def enlarge (size : ℕ) (e : BufferedEvent) : BufferedEvent :=
  (e.setData (newBytes size)).setMemSize size

/-- An event of `newEvents`, for a client. -/
def new (size : ℤ) (e : BufferedEvent) : BufferedEvent :=
  if e.init.memSize < size then (e.init.enlarge size.toNat).setModify etModify
  else e.init.setModify etModify

/-- `readFully` into the event's array, of as many bytes as the event is long; `false` is an
exception.  A client that is gone has sent less. -/
def readData (sent : List Byte) (e : BufferedEvent) : Bool × BufferedEvent :=
  if e.getData.length < e.length then (false, e)
  else (decide (e.length ≤ sent.length),
    { e with dataBuffer := overwrite e.dataBuffer (sent.take e.length) })

/-- An event of `netEvsPut`, or `netEvPut` where no memory is added; `false` is an exception. -/
def put (grow : Bool) (len : BitVec 64) (byteorder : Word) (sent : List Byte)
    (e : BufferedEvent) : Bool × BufferedEvent :=
  match javaLength len with
  | none => (false, e)
  | some length =>
      let e := e.setLength length.toNat
      if ¬ IsMark byteorder then (false, e)
      else if e.modify = etModify then
        readData sent (if grow ∧ e.memSize < e.length then e.enlarge e.length else e)
      else (true, e)

/-- **The buffer holds the event's lengths.** -/
def Holds (e : BufferedEvent) : Prop := e.memSize ≤ e.getData.length ∧ e.length ≤ e.memSize

instance (e : BufferedEvent) : Decidable e.Holds := inferInstanceAs (Decidable (_ ∧ _))

end BufferedEvent

/-! ## Steps and runs -/

/-- What a request does to an event. -/
inductive BufferStep where
  | new (id : Word) (size : ℤ)
  | get (id mod : Word)
  | put (grow : Bool) (id : Word) (len : BitVec 64) (byteorder : Word) (sent : List Byte)
  | dump (id : Word)

namespace BufferStep

/-- The event of the step. -/
def id : BufferStep → Word
  | new id _ | get id _ | put _ id _ _ _ | dump id => id

/-- What becomes of the event. -/
def apply : BufferStep → BufferedEvent → BufferedEvent
  | new _ size, e => e.new size
  | get _ mod, e => e.setModify (javaModify mod)
  | put grow _ len byteorder sent, e => (e.put grow len byteorder sent).2
  | dump _, e => e

/-- The step in a system.  An event that does not exist is an exception. -/
def perform (a : BufferStep) (events : List BufferedEvent) : List BufferedEvent :=
  events.modify a.id.toNat a.apply

/-- The step asks for no event of another size, and puts none with a length, that is more than
the size of the system's events. -/
def Within (eventSize : ℕ) : BufferStep → Prop
  | new _ size => size ≤ eventSize
  | put _ _ len _ _ => ∀ length ∈ javaLength len, length.toNat ≤ eventSize
  | get _ _ | dump _ => True

/-- **An accepted put leaves the bytes that were sent**, if the whole event is sent, and else
the bytes that were there. -/
def KeepsBytes (e : BufferedEvent) : BufferStep → Prop
  | put grow _ len byteorder sent =>
      let after := e.put grow len byteorder sent
      after.1 = true →
        if e.modify = etModify then
          after.2.length ≤ sent.length ∧ after.2.length ≤ after.2.getData.length ∧
            after.2.getData.take after.2.length = sent.take after.2.length
        else after.2.getData = e.getData
  | _ => True

end BufferStep

/-- The events of a system that has just been started. -/
def startBuffers (eventSize n : ℕ) : List BufferedEvent :=
  List.replicate n (.create eventSize)

/-- A run. -/
def runBuffers (acts : List BufferStep) (events : List BufferedEvent) : List BufferedEvent :=
  acts.foldl (fun events a => a.perform events) events

/-- **All buffers hold their lengths** after each step of a run, and each put of it that is
accepted leaves the bytes that were sent. -/
def BuffersHold (eventSize n : ℕ) (acts : List BufferStep) : Prop :=
  ∀ past, past <+: acts →
    (∀ e ∈ runBuffers past (startBuffers eventSize n), e.Holds) ∧
      ∀ a, past ++ [a] <+: acts →
        ∀ e, (runBuffers past (startBuffers eventSize n))[a.id.toNat]? = some e → a.KeepsBytes e

/-! ## One step -/

namespace BufferedEvent

/-- What an event has in a run that keeps within the system's event size. -/
structure Sound (eventSize : ℕ) (e : BufferedEvent) : Prop where
  getData : e.getData.length = eventSize
  memSize : e.memSize = eventSize
  length : e.length ≤ eventSize

theorem Sound.holds {eventSize : ℕ} {e : BufferedEvent} (h : e.Sound eventSize) : e.Holds :=
  ⟨(h.memSize.trans h.getData.symm).le, h.length.trans h.memSize.symm.le⟩

theorem sound_create (eventSize : ℕ) : (create eventSize).Sound eventSize :=
  ⟨List.length_replicate, rfl, Nat.zero_le _⟩

@[simp] theorem enlarge_getData (size : ℕ) (e : BufferedEvent) :
    (e.enlarge size).getData = e.getData := rfl

@[simp] theorem enlarge_memSize (size : ℕ) (e : BufferedEvent) :
    (e.enlarge size).memSize = size := rfl

@[simp] theorem enlarge_length (size : ℕ) (e : BufferedEvent) :
    (e.enlarge size).length = size := by
  show (newBytes size).length = size
  exact List.length_replicate

@[simp] theorem enlarge_modify (size : ℕ) (e : BufferedEvent) :
    (e.enlarge size).modify = e.modify := rfl

@[simp] theorem readData_memSize (sent : List Byte) (e : BufferedEvent) :
    (e.readData sent).2.memSize = e.memSize := by
  rw [readData]
  split <;> rfl

@[simp] theorem readData_length (sent : List Byte) (e : BufferedEvent) :
    (e.readData sent).2.length = e.length := by
  rw [readData]
  split <;> rfl

/-- What is read into the array does not change its size. -/
@[simp] theorem length_getData_readData (sent : List Byte) (e : BufferedEvent) :
    (e.readData sent).2.getData.length = e.getData.length := by
  rw [readData]
  split
  case isTrue => rfl
  case isFalse h =>
    refine length_overwrite ?_
    rw [List.length_take]
    exact (min_le_left _ _).trans (not_lt.mp h)

/-- **Data that are read are those that were sent.** -/
theorem readData_accepted {sent : List Byte} {e : BufferedEvent}
    (h : (e.readData sent).1 = true) :
    e.length ≤ sent.length ∧ e.length ≤ e.getData.length ∧
      (e.readData sent).2.getData.take e.length = sent.take e.length := by
  rw [readData] at h ⊢
  split at h
  case isTrue => exact nomatch h
  case isFalse hroom =>
    have hsent : e.length ≤ sent.length := of_decide_eq_true h
    have htaken : (sent.take e.length).length = e.length := by
      rw [List.length_take, min_eq_left hsent]
    rw [if_neg hroom]
    refine ⟨hsent, not_lt.mp hroom, ?_⟩
    have htake := take_overwrite e.dataBuffer (sent.take e.length)
    rwa [htaken] at htake

end BufferedEvent

namespace BufferStep

open BufferedEvent

/-- **The array that is read and written keeps its size** in every step. -/
theorem getData_length (a : BufferStep) (e : BufferedEvent) :
    (a.apply e).getData.length = e.getData.length := by
  cases a with
  | new _ size =>
      show (e.new size).getData.length = _
      rw [BufferedEvent.new]
      split <;> rfl
  | get => rfl
  | dump => rfl
  | put grow _ len byteorder sent =>
      show (e.put grow len byteorder sent).2.getData.length = _
      rw [BufferedEvent.put]
      cases javaLength len with
      | none => rfl
      | some length =>
          dsimp only
          split
          · rfl
          split
          · rw [length_getData_readData]
            split <;> rfl
          · rfl

/-- No step takes memory from an event. -/
theorem le_memSize (a : BufferStep) (e : BufferedEvent) : e.memSize ≤ (a.apply e).memSize := by
  cases a with
  | get => exact le_rfl
  | dump => exact le_rfl
  | new _ size =>
      show e.memSize ≤ (e.new size).memSize
      rw [BufferedEvent.new]
      split
      case isTrue hlarge =>
        have hsize : (e.memSize : ℤ) < size := hlarge
        show e.memSize ≤ size.toNat
        omega
      case isFalse => exact le_rfl
  | put grow _ len byteorder sent =>
      show e.memSize ≤ (e.put grow len byteorder sent).2.memSize
      rw [BufferedEvent.put]
      cases javaLength len with
      | none => exact le_rfl
      | some length =>
          dsimp only
          split
          · exact le_rfl
          split
          · rw [readData_memSize]
            split
            case isTrue hgrow => exact hgrow.2.le
            case isFalse => exact le_rfl
          · exact le_rfl

/-- **Accepted puts**, in every state. -/
theorem keepsBytes (a : BufferStep) (e : BufferedEvent) : a.KeepsBytes e := by
  cases a with
  | new => exact trivial
  | get => exact trivial
  | dump => exact trivial
  | put grow _ len byteorder sent =>
      intro haccept
      simp only [BufferedEvent.put] at haccept ⊢
      cases hlen : javaLength len with
      | none =>
          rw [hlen] at haccept
          exact nomatch haccept
      | some length =>
          rw [hlen] at haccept
          dsimp only at haccept ⊢
          split at haccept
          case isTrue => exact nomatch haccept
          case isFalse hmark =>
            rw [if_neg hmark]
            have hkept : (e.setLength length.toNat).modify = e.modify := rfl
            rw [hkept] at haccept ⊢
            by_cases hmodify : e.modify = etModify
            · rw [if_pos hmodify] at haccept ⊢
              rw [if_pos hmodify, readData_length, length_getData_readData]
              exact readData_accepted haccept
            · rw [if_neg hmodify, if_neg hmodify]
              rfl

/-- **One step**: from a sound event, the buffer holds its lengths after the step just when the
step is within the size of the events. -/
theorem apply_holds_iff {eventSize : ℕ} {e : BufferedEvent} (h : e.Sound eventSize)
    (a : BufferStep) : (a.apply e).Holds ↔ a.Within eventSize := by
  have harray : (a.apply e).getData.length = eventSize := (a.getData_length e).trans h.getData
  rw [Holds, harray]
  cases a with
  | get => exact iff_of_true ⟨h.memSize.le, h.length.trans h.memSize.symm.le⟩ trivial
  | dump => exact iff_of_true ⟨h.memSize.le, h.length.trans h.memSize.symm.le⟩ trivial
  | new _ size =>
      show (e.new size).memSize ≤ eventSize ∧ (e.new size).length ≤ (e.new size).memSize ↔
        size ≤ eventSize
      have hinit : e.init.memSize = eventSize := h.memSize
      rw [BufferedEvent.new, hinit]
      split
      case isTrue hlarge =>
        refine iff_of_false (fun hall => ?_) (not_le.mpr hlarge)
        have hsize : size.toNat ≤ eventSize := hall.1
        omega
      case isFalse hsmall =>
        exact iff_of_true ⟨hinit.le, Nat.zero_le _⟩ (not_lt.mp hsmall)
  | put grow _ len byteorder sent =>
      show (e.put grow len byteorder sent).2.memSize ≤ eventSize ∧
          (e.put grow len byteorder sent).2.length ≤ (e.put grow len byteorder sent).2.memSize ↔
        ∀ length ∈ javaLength len, length.toNat ≤ eventSize
      rw [BufferedEvent.put]
      cases javaLength len with
      | none => exact iff_of_true ⟨h.memSize.le, h.length.trans h.memSize.symm.le⟩ nofun
      | some length =>
          simp only [Option.mem_some_iff, forall_eq']
          have hmem : (e.setLength length.toNat).memSize = eventSize := h.memSize
          have hlen : (e.setLength length.toNat).length = length.toNat := rfl
          -- the header alone is stored
          have hstored : (e.setLength length.toNat).memSize ≤ eventSize ∧
              (e.setLength length.toNat).length ≤ (e.setLength length.toNat).memSize ↔
              length.toNat ≤ eventSize := by
            rw [hmem, hlen]
            exact and_iff_right le_rfl
          split
          · exact hstored
          split
          · rw [readData_memSize, readData_length]
            split
            · rw [enlarge_memSize, enlarge_length, hlen]
              exact and_iff_left le_rfl
            · exact hstored
          · exact hstored

/-- A step within the size of the events keeps an event sound. -/
theorem sound_apply {eventSize : ℕ} {e : BufferedEvent} (h : e.Sound eventSize) {a : BufferStep}
    (ha : a.Within eventSize) : (a.apply e).Sound eventSize := by
  have harray : (a.apply e).getData.length = eventSize := (a.getData_length e).trans h.getData
  have hholds := (apply_holds_iff h a).mpr ha
  have hmem : eventSize ≤ (a.apply e).memSize := h.memSize ▸ a.le_memSize e
  exact ⟨harray, le_antisymm (hholds.1.trans harray.le) hmem,
    hholds.2.trans (hholds.1.trans harray.le)⟩

/-! ## Runs -/

/-- Of a list one of whose elements is changed, all elements have what they had, if and only if
the one that is changed has it. -/
theorem forall_mem_modify {α : Type*} {p : α → Prop} {l : List α} (h : ∀ x ∈ l, p x) (i : ℕ)
    (f : α → α) : (∀ x ∈ l.modify i f, p x) ↔ ∀ x, l[i]? = some x → p (f x) := by
  constructor
  · intro hall x hx
    refine hall _ (List.mem_of_getElem? (i := i) ?_)
    rw [List.getElem?_modify_eq, hx]
    rfl
  · intro hi y hy
    obtain ⟨j, hj⟩ := List.mem_iff_getElem?.mp hy
    rw [List.getElem?_modify] at hj
    obtain ⟨x, hx, rfl⟩ := Option.map_eq_some_iff.mp hj
    split
    case isTrue hij => exact hi x (hij ▸ hx)
    case isFalse => exact h x (List.mem_of_getElem? hx)

/-- **One step of the system**: from sound events, all buffers hold their lengths after the step
just when it is within the size of the events, or about no event. -/
theorem perform_holds_iff {eventSize : ℕ} {events : List BufferedEvent}
    (h : ∀ e ∈ events, e.Sound eventSize) (a : BufferStep) :
    (∀ e ∈ a.perform events, e.Holds) ↔ (a.id.toNat < events.length → a.Within eventSize) := by
  rw [perform, forall_mem_modify (fun e he => (h e he).holds)]
  constructor
  · intro hall hid
    have he := List.getElem?_eq_getElem hid
    exact (apply_holds_iff (h _ (List.getElem_mem hid)) a).mp (hall _ he)
  · intro hwithin e he
    refine (apply_holds_iff (h e (List.mem_of_getElem? he)) a).mpr (hwithin ?_)
    exact (List.getElem?_eq_some_iff.mp he).1

/-- Such a step keeps all events sound. -/
theorem sound_perform {eventSize : ℕ} {events : List BufferedEvent}
    (h : ∀ e ∈ events, e.Sound eventSize) {a : BufferStep}
    (ha : a.id.toNat < events.length → a.Within eventSize) :
    ∀ e ∈ a.perform events, e.Sound eventSize := by
  refine (forall_mem_modify h _ _).mpr fun e he => ?_
  refine sound_apply (h e (List.mem_of_getElem? he)) (ha ?_)
  exact (List.getElem?_eq_some_iff.mp he).1

theorem length_perform (a : BufferStep) (events : List BufferedEvent) :
    (a.perform events).length = events.length := List.length_modify ..

/-- **A run**, from sound events: after all its steps the buffers hold their lengths just when
every step is within the size of the events, or about no event. -/
theorem run_holds_iff {eventSize : ℕ} (acts : List BufferStep) {events : List BufferedEvent}
    (h : ∀ e ∈ events, e.Sound eventSize) :
    (∀ past, past <+: acts → ∀ e ∈ runBuffers past events, e.Holds) ↔
      ∀ a ∈ acts, a.id.toNat < events.length → a.Within eventSize := by
  induction acts generalizing events with
  | nil =>
      refine iff_of_true (fun past hpast e he => ?_) nofun
      obtain rfl := List.prefix_nil.mp hpast
      exact (h e he).holds
  | cons a acts ih =>
      rw [List.forall_mem_cons, ← perform_holds_iff h a]
      constructor
      · intro hall
        have hfirst : ∀ e ∈ a.perform events, e.Holds := hall [a] (by simp)
        refine ⟨hfirst, ?_⟩
        have hsound := sound_perform h ((perform_holds_iff h a).mp hfirst)
        have hrest := (ih hsound).mp fun past hpast =>
          hall (a :: past) (List.cons_prefix_cons.mpr ⟨rfl, hpast⟩)
        rwa [length_perform] at hrest
      · rintro ⟨hfirst, hrest⟩ past hpast
        have hsound := sound_perform h ((perform_holds_iff h a).mp hfirst)
        rw [← length_perform a events] at hrest
        rcases List.prefix_cons_iff.mp hpast with rfl | ⟨before, rfl, hbefore⟩
        · exact fun e he => (h e he).holds
        · exact (ih hsound).mpr hrest before hbefore

end BufferStep

/-- **The buffers of a system hold their events' lengths in a run exactly when** no step of it
asks for an event of a size, or puts one with a length, that is more than the size of the
system's events. -/
theorem buffers_hold_iff (eventSize n : ℕ) (acts : List BufferStep) :
    BuffersHold eventSize n acts ↔ ∀ a ∈ acts, a.id.toNat < n → a.Within eventSize := by
  have hstart : ∀ e ∈ startBuffers eventSize n, e.Sound eventSize := fun e he =>
    List.eq_of_mem_replicate he ▸ BufferedEvent.sound_create eventSize
  have hrun := BufferStep.run_holds_iff acts hstart
  rw [startBuffers, List.length_replicate] at hrun
  rw [← hrun]
  constructor
  · exact fun h past hpast => (h past hpast).1
  · exact fun h past hpast => ⟨h past hpast, fun a _ e _ => a.keepsBytes e⟩

/-- A new event that is larger than the system's events has more memory than its buffer. -/
theorem large_new_not_held : ¬ ∀ eventSize n acts, BuffersHold eventSize n acts := by
  intro h
  have hlarge := (h 1 1 [.new 0 2] [.new 0 2] List.prefix_rfl).1
  exact absurd hlarge (by decide)

end EventTransfer
