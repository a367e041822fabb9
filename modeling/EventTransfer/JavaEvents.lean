import EventTransfer.RemoteTransfer

/-!
# Events between clients and the Java server

`SystemTcpServer.commandLoop` serves the clients of `et_remote.c` and those of `EtSystem.java`.
It has the same commands as `et_command_loop` (`EventTransfer.RemoteServer`), and decodes them
by offsets of its own; this is its part for getting and putting events.

An event of the Java system is a `MemEvent` whose lengths are `int`s.  A `null` status is
written as 3, and a `null` in `modify` as −1.  What the server reads and writes of an event's
data is the array under `dataBuffer`; it has the size of the system's events, as `setData` sets
another field.  Its byte order mark is the integer that arrives, most significant byte first.

An exception ends the thread of the client.  The commands are for attachments that the client
made and events that exist; how the system gets and puts events is a parameter, `Local`, as for
the C server.

* `Local.javaLoop` — one round of the command loop, as far as it gets and puts events.
* `javaFill_iff`, `javaFill_eq` — when the loop that fills the buffer for a batch has no
  exception, and what it has then written.
-/

namespace EventTransfer

open Wire Exchange

variable {τ : Type}

/-! ## The server -/

/-- The size of an array. -/
abbrev ArraySize := { n : ℕ // n < 2 ^ 31 }

/-- `Modify.getModify`. -/
def javaModify (mod : Word) : Word :=
  if mod = 0 ∨ mod = etModify ∨ mod = etModifyHeader then mod else -1

/-- The integers sent with an event that is got.  The one behind the id is skipped: `netEvsGet` sends what
an earlier event has left there in its buffer.  It is `0` here, and no client looks at it. -/
def javaGetHeader (id : Word) (e : MemEvent) : List Word :=
  [highInt e.length, lowInt e.length, highInt e.memsize, lowInt e.memsize,
    packStatus e.priority e.datastatus, id, 0, e.byteorder, 0] ++ e.control.toList

/-- The reply to `netEvGet`, in an array of `4 * (10 + selectInts)` bytes and those of the
data.  `none` is an exception. -/
def javaEventReply (size : ArraySize) (id : Word) (e : MemEvent) : Option (List Byte) :=
  if 2 ^ 31 ≤ 64 + e.length.toNat ∨ e.datastatus = 3 ∨ size.1 < e.length.toNat then none
  else some (putWords (etOk :: javaGetHeader id e) ++ e.data)

/-- The size of `buffer`. -/
def javaBufferSize : ℕ := 65535

/-- `headerSize`, of a header that has 60 bytes. -/
def javaHeaderSize : ℕ := 48

/-- **The loop of `netEvsGet`** over the events: what has been written to the client, and the
first bytes of `buffer`.  `false` is an exception.  What the buffer has in a skipped integer is not kept
track of (`javaGetHeader`). -/
def javaFill (size : ArraySize) : List (Word × MemEvent) → List Byte → List Byte → Bool × List Byte
  | [], out, pending => (true, out ++ pending)
  | (id, e) :: rest, out, pending =>
      let index := pending.length + 60
      let filled := pending ++ putWords (javaGetHeader id e)
      if e.datastatus = 3 ∨ javaBufferSize < index then (false, out)
      -- the sum is negative, and the data do not fit
      else if 2 ^ 31 ≤ index + javaHeaderSize + e.length.toNat then (false, out)
      else if javaBufferSize < index + javaHeaderSize + e.length.toNat then
        if size.1 < e.length.toNat then (false, out ++ filled)
        else if javaBufferSize / 2 < javaHeaderSize + e.length.toNat then
          javaFill size rest (out ++ filled ++ e.data) []
        else javaFill size rest (out ++ filled) e.data
      else if size.1 < e.length.toNat then (false, out)
      else javaFill size rest out (filled ++ e.data)

/-- The total that the reply to `netEvsGet` announces, an `int` made a `long`. -/
def javaTotal (events : List MemEvent) : BitVec 64 :=
  (BitVec.ofNat 32 (events.length * javaHeaderSize +
    (events.map fun e => e.length.toNat).sum)).signExtend 64

/-- The reply to `netEvsGet`, as far as it is written. -/
def javaEventsReply (size : ArraySize) (ids : List Word) (event : Word → MemEvent) :
    Bool × List Byte :=
  javaFill size (ids.map fun id => (id, event id)) []
    (putWords [BitVec.ofNat 32 ids.length, highInt (javaTotal (ids.map event)),
      lowInt (javaTotal (ids.map event))])

/-- `setLengthFromServer` with a length that is sent as a `long`. -/
def javaLength (len : BitVec 64) : Option (BitVec 64) :=
  if 2 ^ 31 ≤ len.toInt then none
  else if (len.truncate 32).toInt < 0 then none
  else some ((len.truncate 32).zeroExtend 64)

/-- `setRawByteOrder` takes no other mark. -/
def IsMark (byteorder : Word) : Prop := byteorder = 0x04030201 ∨ byteorder = 0x01020304

instance (byteorder : Word) : Decidable (IsMark byteorder) := inferInstanceAs (Decidable (_ ∨ _))

/-- The header of an event that is put is stored. -/
def MemEvent.javaStore (e : MemEvent) (length : BitVec 64) (priAndStat byteorder : Word)
    (control : SelectWords) : MemEvent :=
  { e with
    length := length
    priority := unpackPriority priAndStat
    datastatus := unpackDatastatus priAndStat
    byteorder := byteorder
    control := control }

/-- `setData` and `setMemSize`, where `netEvsPut` finds that the data need more memory. -/
def MemEvent.javaGrow (e : MemEvent) : MemEvent :=
  if e.memsize < e.length then { e with memsize := e.length } else e

/-- The data of an event that is put, if the whole event is modified. -/
def javaReadData (size : ArraySize) (m : Memory τ) (id : Word) : Reader (Option (Memory τ)) :=
  let e := m.event id
  if e.modify = etModify then
    if size.1 < e.length.toNat then return none
    else do
      let data ← readBytes e.length.toNat
      return some (m.update id fun e => { e with pdata := e.pdata.write data })
  else return some m

/-- **An event that is put**, from its integers on; `none` is an exception. -/
def javaReadPut (size : ArraySize) (grow : Bool) (m : Memory τ) (id : Word) (len : BitVec 64)
    (priAndStat byteorder : Word) (control : SelectWords) : Reader (Option (Memory τ)) :=
  match javaLength len with
  | none => return none
  | some length =>
      if ¬ IsMark byteorder then return none
      else
        let store := fun e : MemEvent =>
          let e := e.javaStore length priAndStat byteorder control
          if grow ∧ e.modify = etModify then e.javaGrow else e
        javaReadData size (m.update id store) id

/-- The events of `netEvsPut`. -/
def javaReadPuts (size : ArraySize) : ℕ → Memory τ → Reader (Option (Memory τ) × List Word)
  | 0, m => return (some m, [])
  | n + 1, m => do
      let params ← readWords 13
      let id := params.getD 0 0
      match ← javaReadPut size true m id (uint64 (params.getD 2 0) (params.getD 3 0))
          (params.getD 4 0) (params.getD 5 0) (.ofList params 7) with
      | none => return (none, [])
      | some m =>
          let (m, ids) ← javaReadPuts size n m
          return (m, id :: ids)

namespace Local

variable (L : Local τ)

/-- `netEvGet`. -/
def javaEventGet (size : ArraySize) (m : Memory τ) : Reader (Answer τ) := do
  let params ← readWords 5
  let att := params.getD 0 0
  let mod := params.getD 2 0
  match L.eventGet att ⟨params.getD 1 0, params.getD 3 0, params.getD 4 0⟩ m with
  | (m, .error err) => return (some m, putWords [err.1])
  | (m, .ok id) =>
      match javaEventReply size id (m.event id) with
      | none => return (none, [])
      | some reply =>
          let m := m.setModify (javaModify mod) id
          return (some (if mod = 0 then (L.eventPut att id m).1 else m), reply)

/-- `netEvsGet`. -/
def javaEventsGet (size : ArraySize) (m : Memory τ) : Reader (Answer τ) := do
  let params ← readWords 6
  let att := params.getD 0 0
  let mod := params.getD 2 0
  match L.eventsGet att ⟨params.getD 1 0, params.getD 4 0, params.getD 5 0⟩ (params.getD 3 0) m with
  | (m, .error err) => return (some m, putWords [err.1])
  | (m, .ok ids) =>
      let m := m.setModifyAll (javaModify mod) ids.1
      let reply := javaEventsReply size ids.1 m.event
      if reply.1 then
        return (some (if mod = 0 then (L.eventsPut att ids.1 m).1 else m), reply.2)
      else return (none, reply.2)

/-- `netEvPut`. -/
def javaEventPut (size : ArraySize) (m : Memory τ) : Reader (Answer τ) := do
  let params ← readWords 14
  let id := params.getD 1 0
  -- the first control word is read where the integer is that is ignored
  match ← javaReadPut size false m id (uint64 (params.getD 3 0) (params.getD 4 0))
      (params.getD 5 0) (params.getD 6 0) (.ofList params 7) with
  | none => return (none, [])
  | some m => return (some (L.eventPut (params.getD 0 0) id m).1, putWords [etOk])

/-- `netEvsPut`. -/
def javaEventsPut (size : ArraySize) (m : Memory τ) : Reader (Answer τ) := do
  let params ← readWords 4
  match ← javaReadPuts size (params.getD 1 0).toNat m with
  | (none, _) => return (none, [])
  | (some m, ids) => return (some (L.eventsPut (params.getD 0 0) ids m).1, putWords [etOk])

/-- **The command loop of the Java server**, where it gets and puts events. -/
def javaLoop (size : ArraySize) : Server (Option (Memory τ)) :=
  fun m => show Reader (Answer τ) from
    match m with
    | none => failure
    | some m => do
        match Command.ofCode (← readWord) with
        | some .evGet => L.javaEventGet size m
        | some .evsGet => L.javaEventsGet size m
        | some .evPut => L.javaEventPut size m
        | some .evsPut => L.javaEventsPut size m
        | _ => failure

end Local

/-! ## The buffer of `netEvsGet` -/

/-- Where the next header begins, after an event whose header begins at `index`. -/
def javaNextIndex (index length : ℕ) : ℕ :=
  if javaBufferSize < index + 60 + javaHeaderSize + length then
    if javaBufferSize / 2 < javaHeaderSize + length then 0 else length
  else index + 60 + length

/-- **All headers have room in the buffer**, for events of the given lengths. -/
def JavaFits : ℕ → List ℕ → Prop
  | _, [] => True
  | index, length :: rest =>
      index + 60 ≤ javaBufferSize ∧ index + 60 + javaHeaderSize + length < 2 ^ 31 ∧
        JavaFits (javaNextIndex index length) rest

instance decidableJavaFits : ∀ index lengths, Decidable (JavaFits index lengths)
  | _, [] => isTrue trivial
  | index, length :: rest =>
      have := decidableJavaFits (javaNextIndex index length) rest
      inferInstanceAs (Decidable (_ ∧ _ ∧ JavaFits (javaNextIndex index length) rest))

/-- The server can read all of the event. -/
def MemEvent.Readable (e : MemEvent) (size : ArraySize) : Prop :=
  e.datastatus ≠ 3 ∧ e.length.toNat ≤ size.1

instance (e : MemEvent) (size : ArraySize) : Decidable (e.Readable size) :=
  inferInstanceAs (Decidable (_ ∧ _))

/-- The bytes sent of an event. -/
def MemEvent.javaBytes (e : MemEvent) (id : Word) : List Byte := putWords (javaGetHeader id e) ++ e.data

theorem length_javaGetHeader (id : Word) (e : MemEvent) :
    (putWords (javaGetHeader id e)).length = 60 := by
  rw [length_putWords]
  rfl

theorem length_javaBytes (id : Word) (e : MemEvent) :
    (e.javaBytes id).length = 60 + e.length.toNat := by
  rw [MemEvent.javaBytes, List.length_append, length_javaGetHeader, MemEvent.length_data]

/-- **Exactly when the loop has no exception.** -/
theorem javaFill_iff (size : ArraySize) (events : List (Word × MemEvent)) (out pending : List Byte) :
    (javaFill size events out pending).1 = true ↔
      (∀ p ∈ events, p.2.Readable size) ∧
        JavaFits pending.length (events.map fun p => p.2.length.toNat) := by
  induction events generalizing out pending with
  | nil => simp [javaFill, JavaFits]
  | cons p rest ih =>
      obtain ⟨id, e⟩ := p
      have hfilled : (pending ++ putWords (javaGetHeader id e)).length = pending.length + 60 := by
        rw [List.length_append, length_javaGetHeader]
      -- the loop goes on with what is left and the next place in the buffer
      have step : ∀ out' pending', e.datastatus ≠ 3 → pending.length + 60 ≤ javaBufferSize →
          pending.length + 60 + javaHeaderSize + e.length.toNat < 2 ^ 31 →
          e.length.toNat ≤ size.1 →
          pending'.length = javaNextIndex pending.length e.length.toNat →
          ((javaFill size rest out' pending').1 = true ↔
            ((e.Readable size ∧ ∀ p ∈ rest, p.2.Readable size) ∧
              pending.length + 60 ≤ javaBufferSize ∧
              pending.length + 60 + javaHeaderSize + e.length.toNat < 2 ^ 31 ∧
              JavaFits (javaNextIndex pending.length e.length.toNat)
                (rest.map fun p => p.2.length.toNat))) := by
        intro out' pending' hstatus hindex hsum hsize hnext
        rw [ih, hnext]
        have hread : e.Readable size := ⟨hstatus, hsize⟩
        tauto
      rw [javaFill, List.map_cons, JavaFits, List.forall_mem_cons]
      dsimp only
      split
      case isTrue h =>
        refine iff_of_false nofun fun hall => ?_
        rcases h with h | h
        · exact hall.1.1.1 h
        · omega
      case isFalse h =>
        obtain ⟨hstatus, hindex⟩ := not_or.mp h
        replace hindex : pending.length + 60 ≤ javaBufferSize := not_lt.mp hindex
        split
        case isTrue h =>
          refine iff_of_false nofun fun hall => ?_
          omega
        case isFalse hsum =>
          replace hsum := not_le.mp hsum
          have hthis : e.Readable size ↔ e.length.toNat ≤ size.1 := and_iff_right hstatus
          split
          case isTrue hflush =>
            split
            case isTrue hsize =>
              refine iff_of_false nofun fun hall => ?_
              exact absurd (hthis.mp hall.1.1) (not_le.mpr hsize)
            case isFalse hsize =>
              split
              case isTrue hbig =>
                refine step _ _ hstatus hindex hsum (not_lt.mp hsize) ?_
                rw [javaNextIndex, if_pos hflush, if_pos hbig, List.length_nil]
              case isFalse hbig =>
                refine step _ _ hstatus hindex hsum (not_lt.mp hsize) ?_
                rw [javaNextIndex, if_pos hflush, if_neg hbig, MemEvent.length_data]
          case isFalse hflush =>
            split
            case isTrue hsize =>
              refine iff_of_false nofun fun hall => ?_
              exact absurd (hthis.mp hall.1.1) (not_le.mpr hsize)
            case isFalse hsize =>
              refine step _ _ hstatus hindex hsum (not_lt.mp hsize) ?_
              rw [javaNextIndex, if_neg hflush, List.length_append, hfilled, MemEvent.length_data]

/-- **What is written when it has none**: the events one after the other, whatever the buffer
has held in between. -/
theorem javaFill_eq (size : ArraySize) (events : List (Word × MemEvent)) (out pending : List Byte)
    (h : (javaFill size events out pending).1 = true) :
    (javaFill size events out pending).2 =
      out ++ pending ++ events.flatMap fun p => p.2.javaBytes p.1 := by
  induction events generalizing out pending with
  | nil => simp [javaFill]
  | cons p rest ih =>
      obtain ⟨id, e⟩ := p
      rw [javaFill] at h ⊢
      rw [List.flatMap_cons, MemEvent.javaBytes]
      split at h
      case isTrue => exact nomatch h
      case isFalse hstatus =>
        rw [if_neg hstatus]
        split at h
        case isTrue => exact nomatch h
        case isFalse hsum =>
          rw [if_neg hsum]
          split at h
          case isTrue hflush =>
            rw [if_pos hflush]
            split at h
            case isTrue => exact nomatch h
            case isFalse hsize =>
              rw [if_neg hsize]
              split at h
              case isTrue hbig =>
                rw [if_pos hbig, ih _ _ h]
                simp only [List.append_assoc, List.append_nil]
              case isFalse hbig =>
                rw [if_neg hbig, ih _ _ h]
                simp only [List.append_assoc]
          case isFalse hflush =>
            rw [if_neg hflush]
            split at h
            case isTrue => exact nomatch h
            case isFalse hsize =>
              rw [if_neg hsize, ih _ _ h]
              simp only [List.append_assoc]

end EventTransfer
