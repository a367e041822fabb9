import EventTransfer.JavaClient

/-!
# What `putEvents` writes

The two routines `putEvents` of `EtSystem.java`, with everything that can go wrong between the
first and the last byte they write.  Both first ask for the owner of every event and add up the
number of bytes, an `int`; what the second loop needs of an event's priority, status, data
buffer and length it finds out when it writes the event.

What is written is what `out` is given.  The bytes that are in its buffer when an exception is
thrown are sent with the next request.  The socket itself does not fail here.

* `EtSystem.putEvents`, `EtSystem.putEventsContainer` — the bytes a call writes, and whether it
  returns.
* `PutMessage` — one complete put message.
* `putEvents_allOrNothing_iff` — which calls write a complete message or nothing.
-/

namespace EventTransfer

open Wire Exchange

/-! ## The events of a user -/

/-- A `ByteBuffer`: one on an array, and one without, which is read up to its limit. -/
inductive UserBuffer where
  | array (bytes : List Byte)
  | memory (bytes : List Byte)

/-- The bytes that can be read. -/
def UserBuffer.bytes : UserBuffer → List Byte
  | array bytes | memory bytes => bytes

/-- An `EtEventImpl` as far as `putEvents` reads it; its setters take `null` for `priority`,
`dataStatus`, `modify` and `dataBuffer`. -/
structure UserEvent where
  id : Word
  owner : Word
  length : ArraySize
  priority : Option (BitVec 1)
  dataStatus : Option { status : BitVec 2 // status ≠ 3 }
  modify : Option JavaModify
  byteOrder : Word
  control : SelectWords
  dataBuffer : Option UserBuffer

/-- An array of events; an element may be `null`. -/
abbrev UserArray := { evs : List (Option UserEvent) // evs.length < 2 ^ 31 }

namespace UserEvent

/-- `getModify() != Modify.NOTHING`. -/
def Modified (ev : UserEvent) : Prop := ev.modify.map Subtype.val ≠ some 0

/-- `getModify() == Modify.ANYTHING`. -/
def Wholly (ev : UserEvent) : Prop := ev.modify.map Subtype.val = some etModify

instance (ev : UserEvent) : Decidable ev.Modified := inferInstanceAs (Decidable (_ ≠ _))

instance (ev : UserEvent) : Decidable ev.Wholly := inferInstanceAs (Decidable (_ = _))

/-- The bytes of the event, in the sum. -/
def putSize (ev : UserEvent) : ℕ := 52 + if ev.Wholly then ev.length.1 else 0

/-- The header; `none` is a null priority or status.  Two integers are skipped. -/
def header (skipped : Word × Word) (ev : UserEvent) : Option (List Byte) := do
  let priority ← ev.priority
  let status ← ev.dataStatus
  let length := BitVec.ofNat 64 ev.length.1
  return putWords ([ev.id, skipped.1, highInt length, lowInt length,
    packStatus priority status.1, ev.byteOrder, skipped.2] ++ ev.control.toList)

end UserEvent

/-! ## Writing -/

/-- What has been written, and whether the call returns. -/
structure PutResult where
  returns : Bool
  written : List Byte

/-- Nothing is written and an exception thrown. -/
def PutResult.refused : PutResult := ⟨false, []⟩

/-- More is written, unless there has been an exception. -/
def PutResult.andThen (r s : PutResult) : PutResult :=
  if r.returns then ⟨s.returns, r.written ++ s.written⟩ else r

namespace UserEvent

/-- The data.  An array is written at once, and other memory byte by byte. -/
def writeData (ev : UserEvent) : PutResult :=
  match ev.dataBuffer with
  | none => .refused
  | some (.array bytes) =>
      if bytes.length < ev.length.1 then .refused else ⟨true, bytes.take ev.length.1⟩
  | some (.memory bytes) => ⟨decide (ev.length.1 ≤ bytes.length), bytes.take ev.length.1⟩

/-- One event. -/
def write (skipped : Word × Word) (ev : UserEvent) : PutResult :=
  match ev.header skipped with
  | none => .refused
  | some header =>
      .andThen ⟨true, header⟩ (if ev.Wholly then ev.writeData else ⟨true, []⟩)

end UserEvent

/-- The second loop. -/
def writeEvents (skipped : Word × Word) : List UserEvent → PutResult
  | [] => ⟨true, []⟩
  | ev :: rest =>
      if ev.Modified then (ev.write skipped).andThen (writeEvents skipped rest)
      else writeEvents skipped rest

/-- The events that are sent. -/
def modifiedEvents (evs : List UserEvent) : List UserEvent := evs.filter fun ev => ev.Modified

/-- The sum, before it is an `int`. -/
def putTotal (evs : List UserEvent) : ℕ := ((modifiedEvents evs).map UserEvent.putSize).sum

/-- The command and its three arguments, the last one a `long`. -/
def putCommand (att number : Word) (bytes : BitVec 64) : List Byte :=
  putWords [Command.evsPut.code, att, number, highInt bytes, lowInt bytes]

/-- From where the events are counted. -/
def sendEvents (skipped : Word × Word) (att : Word) (evs : List UserEvent) : PutResult :=
  if modifiedEvents evs = [] then ⟨true, []⟩
  else
    .andThen
      ⟨true, putCommand att (.ofNat 32 (modifiedEvents evs).length)
        ((BitVec.ofNat 32 (putTotal evs)).signExtend 64)⟩
      (writeEvents skipped evs)

/-- The first loop: all events, if they belong to the attachment. -/
def ownedEvents (att : Word) : List (Option UserEvent) → Option (List UserEvent)
  | [] => some []
  | none :: _ => none
  | some ev :: rest =>
      if ev.owner = att then (ownedEvents att rest).map (ev :: ·) else none

/-- The elements from `offset` to `offset + length`, an `int`. -/
def elementsFrom (evs : UserArray) (offset length : Word) : List (Option UserEvent) :=
  (evs.1.take (offset + length).toInt.toNat).drop offset.toNat

/-- The arguments name a part of the array. -/
def PartOf (evs : UserArray) (offset length : Word) : Prop :=
  0 ≤ offset.toInt ∧ 0 ≤ length.toInt ∧ (offset + length).toInt ≤ evs.1.length

instance (evs : UserArray) (offset length : Word) : Decidable (PartOf evs offset length) :=
  inferInstanceAs (Decidable (_ ∧ _ ∧ _))

/-- `putEvents` with the parameters of a container; `usable` says that the container and the
attachment have been accepted.  The header is in a byte array of the container, where the
integers that are skipped have any values. -/
def EtSystem.putEventsContainer (skipped : Word × Word) (usable : Bool) (att : Word)
    (evs : UserArray) (offset length : Word) : PutResult :=
  if usable ∧ PartOf evs offset length then
    match ownedEvents att (elementsFrom evs offset length) with
    | none => .refused
    | some evs => sendEvents skipped att evs
  else .refused

/-- **`putEvents`** of an array, with a header of its own. -/
def EtSystem.putEvents (usable : Bool) (att : Word) (evs : UserArray) (offset length : Word) :
    PutResult :=
  EtSystem.putEventsContainer (0, 0) usable att evs offset length

/-! ## Complete messages -/

/-- All that is to be sent of an event, if the event has it. -/
def UserEvent.record (skipped : Word × Word) (ev : UserEvent) : Option (List Byte) := do
  let header ← ev.header skipped
  if ev.Wholly then
    let buffer ← ev.dataBuffer
    if ev.length.1 ≤ buffer.bytes.length then return header ++ buffer.bytes.take ev.length.1
    else none
  else return header

/-- The records of events, one after the other. -/
def putRecords (skipped : Word × Word) : List UserEvent → Option (List Byte)
  | [] => some []
  | ev :: rest => do
      let record ← ev.record skipped
      let body ← putRecords skipped rest
      return record ++ body

/-- **A complete put message**: the command with the number of events, the number of the bytes
that follow, and these. -/
def PutMessage (skipped : Word × Word) (att : Word) (evs : List UserEvent)
    (written : List Byte) : Prop :=
  ∃ body, putRecords skipped evs = some body ∧
    written = putCommand att (.ofNat 32 evs.length) (.ofNat 64 body.length) ++ body

/-- **All or nothing**: a complete message of the modified events among the given ones has been
written, or no byte. -/
def AllOrNothing (skipped : Word × Word) (att : Word) (evs : List (Option UserEvent))
    (written : List Byte) : Prop :=
  written = [] ∨ PutMessage skipped att (modifiedEvents evs.reduceOption) written

/-- The event has all that is sent of it. -/
def UserEvent.Ready (ev : UserEvent) : Prop :=
  ev.priority.isSome ∧ ev.dataStatus.isSome ∧
    (ev.Wholly → ∃ buffer ∈ ev.dataBuffer, ev.length.1 ≤ buffer.bytes.length)

/-- The call is refused by the checks that come before the first byte. -/
def PutRefused (usable : Bool) (att : Word) (evs : UserArray) (offset length : Word) : Prop :=
  usable = false ∨ ¬ PartOf evs offset length ∨
    ∃ ev ∈ elementsFrom evs offset length, ∀ e ∈ ev, e.owner ≠ att

/-- **The condition**: every modified event has all that is sent of it, and together they are
less than 2 GB. -/
def PutSendable (evs : List (Option UserEvent)) : Prop :=
  (∀ ev ∈ modifiedEvents evs.reduceOption, ev.Ready) ∧ putTotal evs.reduceOption < 2 ^ 31

/-! ## Records -/

section

variable {skipped : Word × Word} {att : Word}

theorem UserEvent.header_isSome (ev : UserEvent) :
    (∃ header, ev.header skipped = some header) ↔ ev.priority.isSome ∧ ev.dataStatus.isSome := by
  rw [UserEvent.header]
  cases ev.priority with
  | none => simp
  | some priority =>
      cases ev.dataStatus with
      | none => simp
      | some status => simp

theorem UserEvent.length_header {ev : UserEvent} {header : List Byte}
    (h : ev.header skipped = some header) : header.length = 52 := by
  obtain ⟨priority, -, h⟩ := Option.bind_eq_some_iff.mp h
  obtain ⟨status, -, h⟩ := Option.bind_eq_some_iff.mp h
  rw [← Option.some.inj h, length_putWords]
  rfl

/-- **An event has a record when it has all that is sent of it.** -/
theorem UserEvent.record_isSome (ev : UserEvent) :
    (∃ record, ev.record skipped = some record) ↔ ev.Ready := by
  rw [UserEvent.Ready, ← and_assoc, ← @UserEvent.header_isSome skipped ev, UserEvent.record]
  cases ev.header skipped with
  | none => simp
  | some header =>
      by_cases hwhole : ev.Wholly
      · cases ev.dataBuffer with
        | none => simp [hwhole]
        | some buffer => simp [hwhole]
      · simp [hwhole]

/-- What is written of an event that has a record. -/
theorem UserEvent.write_of_record {ev : UserEvent} {record : List Byte}
    (h : ev.record skipped = some record) :
    ev.write skipped = ⟨true, record⟩ ∧ record.length = ev.putSize := by
  obtain ⟨header, hheader, h⟩ := Option.bind_eq_some_iff.mp h
  have hlength := UserEvent.length_header hheader
  rw [UserEvent.write, hheader, UserEvent.putSize]
  by_cases hwhole : ev.Wholly
  · rw [if_pos hwhole] at h
    obtain ⟨buffer, hbuffer, h⟩ := Option.bind_eq_some_iff.mp h
    obtain ⟨hroom, h⟩ := Option.ite_none_right_eq_some.mp h
    have htaken : (buffer.bytes.take ev.length.1).length = ev.length.1 := by
      rw [List.length_take, min_eq_left hroom]
    have hdata : ev.writeData = ⟨true, buffer.bytes.take ev.length.1⟩ := by
      rw [UserEvent.writeData, hbuffer]
      cases buffer with
      | array bytes => exact if_neg (not_lt.mpr hroom)
      | memory bytes => exact congrArg (PutResult.mk · _) (decide_eq_true hroom)
    rw [← Option.some.inj h]
    refine ⟨?_, ?_⟩
    · dsimp only
      rw [if_pos hwhole, hdata]
      rfl
    · rw [if_pos hwhole, List.length_append, hlength, htaken]
  · rw [if_neg hwhole] at h
    rw [← Option.some.inj h]
    refine ⟨?_, ?_⟩
    · dsimp only
      rw [if_neg hwhole]
      show PutResult.mk true (header ++ []) = _
      rw [List.append_nil]
    · rw [if_neg hwhole, hlength]

theorem putRecords_isSome (evs : List UserEvent) :
    (∃ body, putRecords skipped evs = some body) ↔ ∀ ev ∈ evs, ev.Ready := by
  induction evs with
  | nil => exact iff_of_true ⟨[], rfl⟩ nofun
  | cons ev rest ih =>
      rw [List.forall_mem_cons, ← ih, ← @UserEvent.record_isSome skipped ev, putRecords]
      cases ev.record skipped with
      | none => simp
      | some record =>
          cases putRecords skipped rest with
          | none => simp
          | some body => simp

/-- What is written of events that all have a record. -/
theorem writeEvents_of_records {evs : List UserEvent} {body : List Byte}
    (h : putRecords skipped (modifiedEvents evs) = some body) :
    writeEvents skipped evs = ⟨true, body⟩ ∧ body.length = putTotal evs := by
  induction evs generalizing body with
  | nil =>
      rw [← Option.some.inj h]
      exact ⟨rfl, rfl⟩
  | cons ev rest ih =>
      rw [writeEvents]
      by_cases hmodified : ev.Modified
      · have hcons : modifiedEvents (ev :: rest) = ev :: modifiedEvents rest :=
          List.filter_cons_of_pos (decide_eq_true hmodified)
        rw [hcons] at h
        obtain ⟨record, hrecord, h⟩ := Option.bind_eq_some_iff.mp h
        obtain ⟨tail, htail, h⟩ := Option.bind_eq_some_iff.mp h
        obtain ⟨hwrite, hsize⟩ := UserEvent.write_of_record hrecord
        obtain ⟨hrest, htotal⟩ := ih htail
        rw [if_pos hmodified, hwrite, hrest, ← Option.some.inj h]
        refine ⟨rfl, ?_⟩
        rw [putTotal, hcons, List.map_cons, List.sum_cons, List.length_append, hsize, htotal,
          putTotal]
      · have hcons : modifiedEvents (ev :: rest) = modifiedEvents rest :=
          List.filter_cons_of_neg (by rwa [decide_eq_true_eq])
        rw [hcons] at h
        rw [if_neg hmodified, putTotal, hcons]
        exact ih h

/-! ## The command -/

theorem putCommand_inj {number : Word} {a b : BitVec 64} {x y : List Byte}
    (h : putCommand att number a ++ x = putCommand att number b ++ y) : a = b ∧ x = y := by
  have hlength : (putCommand att number a).length = (putCommand att number b).length := by
    rw [putCommand, putCommand, length_putWords, length_putWords]
    rfl
  obtain ⟨hcommand, hrest⟩ := List.append_inj h hlength
  refine ⟨?_, hrest⟩
  have hwords := congrArg (getWords 5) hcommand
  rw [putCommand, putCommand, getWords_putWords (n := 5) rfl, getWords_putWords (n := 5) rfl]
    at hwords
  injection hwords with _ hwords
  injection hwords with _ hwords
  injection hwords with _ hwords
  injection hwords with hhigh hwords
  injection hwords with hlow _
  rw [← uint64_highInt_lowInt a, hhigh, hlow, uint64_highInt_lowInt]

/-- The `int` made a `long` is the sum just when that is less than 2 GB. -/
theorem signExtend_ofNat_iff {n : ℕ} (h : n < 2 ^ 63) :
    (BitVec.ofNat 32 n).signExtend 64 = BitVec.ofNat 64 n ↔ n < 2 ^ 31 := by
  rw [← BitVec.toInt_inj, BitVec.toInt_signExtend_of_le (by decide), BitVec.toInt_ofNat',
    BitVec.toInt_ofNat', Int.bmod_def, Int.bmod_def]
  omega

theorem sum_putSize_lt (evs : List UserEvent) :
    (evs.map UserEvent.putSize).sum ≤ evs.length * 2 ^ 32 := by
  induction evs with
  | nil => exact le_rfl
  | cons ev rest ih =>
      have hlength := ev.length.2
      have hsize : ev.putSize ≤ 2 ^ 32 := by
        rw [UserEvent.putSize]
        split <;> omega
      rw [List.map_cons, List.sum_cons, List.length_cons]
      omega

/-- **From where the events are counted**: there is a complete message just when the modified
events have all that is sent of them, and less than 2 GB of it. -/
theorem putMessage_sendEvents_iff {evs : List UserEvent} (hcount : evs.length < 2 ^ 31)
    (hsome : modifiedEvents evs ≠ []) :
    PutMessage skipped att (modifiedEvents evs) (sendEvents skipped att evs).written ↔
      (∀ ev ∈ modifiedEvents evs, ev.Ready) ∧ putTotal evs < 2 ^ 31 := by
  have htotal : putTotal evs < 2 ^ 63 := by
    have hsum := sum_putSize_lt (modifiedEvents evs)
    have hfilter : (modifiedEvents evs).length ≤ evs.length := List.length_filter_le ..
    rw [putTotal]
    omega
  rw [← @putRecords_isSome skipped, sendEvents, if_neg hsome, PutMessage]
  constructor
  · rintro ⟨body, hbody, hwritten⟩
    refine ⟨⟨body, hbody⟩, ?_⟩
    obtain ⟨hwrite, hlength⟩ := writeEvents_of_records hbody
    rw [hwrite, hlength] at hwritten
    exact (signExtend_ofNat_iff htotal).mp (putCommand_inj hwritten).1
  · rintro ⟨⟨body, hbody⟩, hsmall⟩
    refine ⟨body, hbody, ?_⟩
    obtain ⟨hwrite, hlength⟩ := writeEvents_of_records hbody
    rw [hwrite, hlength, ← (signExtend_ofNat_iff htotal).mpr hsmall]
    rfl

theorem sendEvents_allOrNothing_iff {evs : List UserEvent} (hcount : evs.length < 2 ^ 31) :
    (sendEvents skipped att evs).written = [] ∨
        PutMessage skipped att (modifiedEvents evs) (sendEvents skipped att evs).written ↔
      (∀ ev ∈ modifiedEvents evs, ev.Ready) ∧ putTotal evs < 2 ^ 31 := by
  by_cases hsome : modifiedEvents evs = []
  · refine iff_of_true (.inl ?_) ⟨?_, ?_⟩
    · rw [sendEvents, if_pos hsome]
    · rw [hsome]
      nofun
    · rw [putTotal, hsome]
      decide
  · rw [← putMessage_sendEvents_iff hcount hsome]
    refine or_iff_right fun hnil => ?_
    rw [sendEvents, if_neg hsome] at hnil
    exact nomatch List.append_eq_nil_iff.mp hnil

/-! ## A call -/

theorem ownedEvents_none {evs : List (Option UserEvent)} :
    ownedEvents att evs = none ↔ ∃ ev ∈ evs, ∀ e ∈ ev, e.owner ≠ att := by
  induction evs with
  | nil => exact iff_of_false nofun nofun
  | cons ev rest ih =>
      rw [List.exists_mem_cons_iff]
      cases ev with
      | none => exact iff_of_true rfl (.inl nofun)
      | some ev =>
          rw [ownedEvents]
          by_cases howner : ev.owner = att
          · rw [if_pos howner, Option.map_eq_none_iff, ih]
            simp [howner]
          · rw [if_neg howner]
            simp [howner]

theorem reduceOption_of_owned {evs : List (Option UserEvent)} {owned : List UserEvent}
    (h : ownedEvents att evs = some owned) : evs.reduceOption = owned := by
  induction evs generalizing owned with
  | nil => exact Option.some.inj h
  | cons ev rest ih =>
      cases ev with
      | none => exact nomatch h
      | some ev =>
          obtain ⟨-, h⟩ := Option.ite_none_right_eq_some.mp h
          obtain ⟨tail, htail, rfl⟩ := Option.map_eq_some_iff.mp h
          rw [List.reduceOption_cons_of_some, ih htail]

end

/-- One call, whatever the integers are that are skipped. -/
theorem putEventsContainer_allOrNothing (skipped : Word × Word) (usable : Bool) (att : Word)
    (evs : UserArray) (offset length : Word) :
    AllOrNothing skipped att (elementsFrom evs offset length)
        (EtSystem.putEventsContainer skipped usable att evs offset length).written ↔
      PutRefused usable att evs offset length ∨ PutSendable (elementsFrom evs offset length) := by
  have hcount : (elementsFrom evs offset length).reduceOption.length < 2 ^ 31 := by
    have hreduce := List.reduceOption_length_le (elementsFrom evs offset length)
    have helements : (elementsFrom evs offset length).length ≤ evs.1.length := by
      rw [elementsFrom, List.length_drop, List.length_take]
      omega
    have harray := evs.2
    omega
  rw [EtSystem.putEventsContainer, PutRefused, ← ownedEvents_none]
  cases usable with
  | false => exact iff_of_true (.inl rfl) (.inl (.inl rfl))
  | true =>
      by_cases hpart : PartOf evs offset length
      swap
      · rw [if_neg fun h => hpart h.2]
        exact iff_of_true (.inl rfl) (.inl (.inr (.inl hpart)))
      rw [if_pos ⟨rfl, hpart⟩]
      cases howned : ownedEvents att (elementsFrom evs offset length) with
      | none => exact iff_of_true (.inl rfl) (.inl (.inr (.inr rfl)))
      | some owned =>
          rw [reduceOption_of_owned howned] at hcount
          rw [AllOrNothing, PutSendable, reduceOption_of_owned howned]
          refine (sendEvents_allOrNothing_iff hcount).trans ?_
          simp [hpart]

/-- **A call of `putEvents` has written a complete put message or nothing exactly when** it is
refused before the first byte, or every modified event has all that is sent of it and together
they are less than 2 GB; with an array and with a container. -/
theorem putEvents_allOrNothing_iff (usable : Bool) (att : Word) (evs : UserArray)
    (offset length : Word) :
    (AllOrNothing (0, 0) att (elementsFrom evs offset length)
        (EtSystem.putEvents usable att evs offset length).written ↔
      PutRefused usable att evs offset length ∨ PutSendable (elementsFrom evs offset length)) ∧
    ∀ skipped, AllOrNothing skipped att (elementsFrom evs offset length)
        (EtSystem.putEventsContainer skipped usable att evs offset length).written ↔
      PutRefused usable att evs offset length ∨ PutSendable (elementsFrom evs offset length) :=
  ⟨putEventsContainer_allOrNothing (0, 0) usable att evs offset length,
    fun skipped => putEventsContainer_allOrNothing skipped usable att evs offset length⟩

/-- A new event that has been asked for without a buffer. -/
def bufferlessEvent : UserEvent where
  id := 0
  owner := 0
  length := ⟨0, by decide⟩
  priority := some 0
  dataStatus := some ⟨0, by decide⟩
  modify := some ⟨etModify, by decide⟩
  byteOrder := 0x04030201
  control := ⟨-1, -1, -1, -1, -1, -1⟩
  dataBuffer := none

/-- When it is found that there is no buffer, the command and the header have been written. -/
theorem bufferless_not_allOrNothing :
    ¬ ∀ usable att evs offset length,
      AllOrNothing (0, 0) att (elementsFrom evs offset length)
        (EtSystem.putEvents usable att evs offset length).written := by
  intro h
  rcases h true 0 ⟨[some bufferlessEvent], by decide⟩ 0 1 with hnil | ⟨body, hbody, -⟩
  · exact absurd hnil (by decide)
  · exact nomatch hbody

end EventTransfer
