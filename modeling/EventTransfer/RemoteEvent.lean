import EventTransfer.RemoteCall

/-!
# Events on the network

What a remote client and the server write of an event (`et_remote.c`, `et_command_loop`),
and the client's routines that get, put, make and dump events.

* `MemEvent` is an event in the memory of the system, `ClientEvent` the copy a client has.
* `getHeader` and `putHeader` are the integers sent with an event in the two directions.
* `etrEventGet`, `etrEventsGet`, `etrEventPut`, `etrEventsPut`, … are the client's routines.

Client and server are 64-bit programs of the same byte order; `big` says which.  The byte
order mark of an event is the one integer sent as it lies in memory.
-/

namespace EventTransfer

open Wire Exchange

/-! ## Events -/

/-- A buffer. -/
abbrev Buffer := ℕ → Byte

namespace Buffer

/-- The first `n` bytes. -/
def read (b : Buffer) (n : ℕ) : List Byte := (List.range n).map b

/-- The first bytes are overwritten. -/
def write (b : Buffer) (bytes : List Byte) : Buffer := fun i => bytes.getD i (b i)

/-- A buffer with nothing in it. -/
def empty : Buffer := fun _ => 0

@[simp] theorem length_read (b : Buffer) (n : ℕ) : (b.read n).length = n := by
  rw [read, List.length_map, List.length_range]

/-- What is written is read back. -/
theorem read_write (b : Buffer) (bytes : List Byte) :
    (b.write bytes).read bytes.length = bytes := by
  apply List.ext_getElem
  · rw [length_read]
  · intro i _ hi
    simp [read, write, hi]

end Buffer

/-- **An event in the memory of the system**: what is sent of it, its data, and how the remote
client that has it is going to change it. -/
structure MemEvent where
  length : BitVec 64
  memsize : BitVec 64
  priority : BitVec 1
  datastatus : BitVec 2
  byteorder : Word
  control : SelectWords
  modify : Word
  pdata : Buffer

/-- **A client's copy of an event.**  It has no buffer when the user is to supply one and has
not yet done so. -/
structure ClientEvent where
  place : Word
  length : BitVec 64
  memsize : BitVec 64
  priority : BitVec 1
  datastatus : BitVec 2
  byteorder : Word
  control : SelectWords
  modify : Word
  pdata : Option Buffer

/-- `ET_MODIFY`: the remote client changes header and data. -/
def etModify : Word := 4

/-- `ET_MODIFY_HEADER`: the remote client changes the header only. -/
def etModifyHeader : Word := 8

/-- `ET_DUMP`: an event that the client does not change is dumped. -/
def etDump : Word := 16

/-- `ET_NOALLOC`: the user supplies the buffer. -/
def etNoalloc : Word := 32

/-- `ET_SLEEP`. -/
def etSleep : Word := 0

/-- `ET_TIMED`. -/
def etTimed : Word := 1

/-- `ET_WAIT_MASK`. -/
def etWaitMask : Word := 3

/-! ## Formats -/

/-- `htonl` and `ntohl` as functions of an integer: nothing on a machine that has the most
significant byte first, else the bytes turned round. -/
def netOrder (big : Bool) (w : Word) : Word := if big then w else ntohl (htonl w).reverse

theorem htonl_ntohl_four (a b c d : Byte) : htonl (ntohl [a, b, c, d]) = [a, b, c, d] := by
  have ha := a.isLt
  have hb := b.isLt
  have hc := c.isLt
  have hd := d.isLt
  simp only [htonl, ntohl, List.foldl_cons, List.foldl_nil, BitVec.toNat_ofNat, List.cons.injEq,
    and_true]
  refine ⟨?_, ?_, ?_, ?_⟩ <;> apply BitVec.eq_of_toNat_eq <;> rw [BitVec.toNat_ofNat] <;> omega

/-- **An integer sent as it lies in memory arrives.** -/
@[simp] theorem netOrder_netOrder (big : Bool) (w : Word) :
    netOrder big (netOrder big w) = w := by
  cases big with
  | true => rfl
  | false =>
      have h : htonl (ntohl (htonl w).reverse) = (htonl w).reverse := htonl_ntohl_four ..
      simp [netOrder, h]

/-- Priority and data status share an integer. -/
def packStatus (priority : BitVec 1) (datastatus : BitVec 2) : Word :=
  priority.zeroExtend 32 ||| datastatus.zeroExtend 32 <<< 4

/-- `ET_PRIORITY_MASK`. -/
def unpackPriority (w : Word) : BitVec 1 := (w &&& 1).truncate 1

/-- `ET_DATA_MASK` and `ET_DATA_SHIFT`. -/
def unpackDatastatus (w : Word) : BitVec 2 := ((w &&& 0x30) >>> 4).truncate 2

@[simp] theorem unpackPriority_packStatus (p : BitVec 1) (d : BitVec 2) :
    unpackPriority (packStatus p d) = p := by
  revert p d
  decide

@[simp] theorem unpackDatastatus_packStatus (p : BitVec 1) (d : BitVec 2) :
    unpackDatastatus (packStatus p d) = d := by
  revert p d
  decide

/-- The integers sent with an event that is got. -/
def getHeader (big : Bool) (place : Word) (e : MemEvent) : List Word :=
  [highInt e.length, lowInt e.length, highInt e.memsize, lowInt e.memsize,
    packStatus e.priority e.datastatus, place, 0, netOrder big e.byteorder, 0] ++
  e.control.toList

/-- The event with these integers and the given data, which the client will change as
`modify` says. -/
def ClientEvent.ofHeader (big : Bool) (modify : Word) (header : List Word) (data : List Byte) :
    ClientEvent where
  place := header.getD 5 0
  length := uint64 (header.getD 0 0) (header.getD 1 0)
  memsize := uint64 (header.getD 2 0) (header.getD 3 0)
  priority := unpackPriority (header.getD 4 0)
  datastatus := unpackDatastatus (header.getD 4 0)
  byteorder := netOrder big (header.getD 7 0)
  control := .ofList header 9
  modify := modify
  pdata := some (Buffer.empty.write data)

/-- The integers sent with an event that is put, from its place on. -/
def putHeader (big : Bool) (ev : ClientEvent) : List Word :=
  [ev.place, 0, highInt ev.length, lowInt ev.length, packStatus ev.priority ev.datastatus,
    netOrder big ev.byteorder, 0] ++ ev.control.toList

/-- The server stores the integers. -/
def MemEvent.storeHeader (big : Bool) (header : List Word) (e : MemEvent) : MemEvent :=
  { e with
    length := uint64 (header.getD 2 0) (header.getD 3 0)
    priority := unpackPriority (header.getD 4 0)
    datastatus := unpackDatastatus (header.getD 4 0)
    byteorder := netOrder big (header.getD 5 0)
    control := .ofList header 7 }

theorem MemEvent.storeHeader_memsize (big : Bool) (header : List Word) (e : MemEvent) :
    (e.storeHeader big header).memsize = e.memsize := by
  cases e
  rfl

theorem MemEvent.storeHeader_modify (big : Bool) (header : List Word) (e : MemEvent) :
    (e.storeHeader big header).modify = e.modify := by
  cases e
  rfl

theorem MemEvent.storeHeader_length (big : Bool) (header : List Word) (e : MemEvent) :
    (e.storeHeader big header).length = uint64 (header.getD 2 0) (header.getD 3 0) := by
  cases e
  rfl

/-- The data of an event in memory. -/
def MemEvent.data (e : MemEvent) : List Byte := e.pdata.read e.length.toNat

/-- What is sent of an event that is got: its header and its data. -/
def MemEvent.getBytes (big : Bool) (place : Word) (e : MemEvent) : List Byte :=
  putWords (getHeader big place e) ++ e.data

/-- **What a client should have of an event it gets.** -/
def MemEvent.view (e : MemEvent) (place modify : Word) : ClientEvent where
  place := place
  length := e.length
  memsize := e.memsize
  priority := e.priority
  datastatus := e.datastatus
  byteorder := e.byteorder
  control := e.control
  modify := modify
  pdata := some (Buffer.empty.write e.data)

/-- **What the system should have of an event that is put.** -/
def MemEvent.store (e : MemEvent) (ev : ClientEvent) : MemEvent :=
  { e with
    length := ev.length
    priority := ev.priority
    datastatus := ev.datastatus
    byteorder := ev.byteorder
    control := ev.control
    pdata := if ev.modify = etModify then e.pdata.write ((ev.pdata.getD .empty).read ev.length.toNat)
      else e.pdata }

@[simp] theorem length_getHeader (big : Bool) (place : Word) (e : MemEvent) :
    (getHeader big place e).length = 15 := rfl

@[simp] theorem length_putHeader (big : Bool) (ev : ClientEvent) :
    (putHeader big ev).length = 13 := rfl

@[simp] theorem MemEvent.length_data (e : MemEvent) : e.data.length = e.length.toNat :=
  Buffer.length_read _ _

/-- **The integers of an event that is got are read as they were written.** -/
theorem ofHeader_getHeader (big : Bool) (place modify : Word) (e : MemEvent) :
    ClientEvent.ofHeader big modify (getHeader big place e) e.data = e.view place modify := by
  simp [ClientEvent.ofHeader, getHeader, MemEvent.view, SelectWords.ofList, SelectWords.toList]

/-- **The integers of an event that is put are read as they were written.** -/
theorem storeHeader_putHeader (big : Bool) (ev : ClientEvent) (e : MemEvent) :
    e.storeHeader big (putHeader big ev) =
      { e with
        length := ev.length
        priority := ev.priority
        datastatus := ev.datastatus
        byteorder := ev.byteorder
        control := ev.control } := by
  simp [MemEvent.storeHeader, putHeader, SelectWords.ofList, SelectWords.toList]

/-! ## Lengths -/

/-- `(int) len` as the number of bytes to read: a negative number is none. -/
def intLen (len : BitVec 64) : ℕ := (len.truncate 32).toInt.toNat

/-- Data of length `len` are read.  The length is an `int` for the reading and a 64-bit
number for the test whether all was read. -/
def recvData {α : Type} (len : BitVec 64) (next : Option (List Byte) → Routine α) : Routine α :=
  .recv (intLen len) fun data => if len.toNat < 2 ^ 31 then next data else next none

theorem intLen_of_lt {len : BitVec 64} (h : len.toNat < 2 ^ 31) : intLen len = len.toNat := by
  have hmod : (len.truncate 32).toNat = len.toNat := by
    rw [BitVec.truncate_eq_setWidth, BitVec.toNat_setWidth]
    omega
  rw [intLen, BitVec.toInt_eq_toNat_of_lt (by omega), hmod, Int.toNat_natCast]

theorem intLen_le (len : BitVec 64) : intLen len ≤ len.toNat := by
  have hmod : (len.truncate 32).toNat ≤ len.toNat := by
    rw [BitVec.truncate_eq_setWidth, BitVec.toNat_setWidth]
    exact Nat.mod_le _ _
  have hint : (len.truncate 32).toInt ≤ (len.truncate 32).toNat := by
    rw [BitVec.toInt_eq_toNat_cond]
    split <;> omega
  rw [intLen]
  omega

theorem lt_of_intLen_eq {len : BitVec 64} (h : intLen len = len.toNat) : len.toNat < 2 ^ 31 := by
  have hlt : (len.truncate 32).toInt < 2 ^ 31 := BitVec.toInt_lt
  rw [intLen] at h
  omega

/-- The total of what `etNetTcpWritev` writes is an `int`, and -1 stands for a failure. -/
def writevFails (n : ℕ) : Bool := n % 2 ^ 32 = 2 ^ 32 - 1

/-- A call whose request is written by `etNetTcpWritev`. -/
def exchangev {α : Type} (request : List Byte) (n : ℕ) (writeError readError : α)
    (next : List Byte → Routine α) : Routine α :=
  if writevFails request.length then .lock (.send request fun _ => .unlock (.ret writeError))
  else .exchange request n writeError readError next

/-! ## Getting events -/

/-- How long the server is to wait. -/
structure Timing where
  wait : Word
  sec : Word
  nsec : Word

/-- How long to ask the server to wait, and how often to ask again.  Sleeping, and waiting
for more than a second, is done by waiting for 0.2 seconds again and again. -/
def netTiming (mode : Word) (deltatime : Option (ℤ × ℤ)) : Timing × ℤ :=
  let wait := mode &&& etWaitMask
  let (sec, nsec) := deltatime.getD (0, 0)
  let microSec := if wait = etTimed then sec * 1000000 + nsec.tdiv 1000 else 0
  if wait = etSleep then (⟨etTimed, 0, 200000000⟩, 1)
  else if wait = etTimed ∧ 1000000 < microSec then
    (⟨etTimed, 0, 200000000⟩,
      (BitVec.ofInt 32 microSec).toInt.tdiv 200000 + if 0 < microSec.tmod 200000 then 1 else 0)
  else (⟨wait, .ofInt 32 sec, .ofInt 32 nsec⟩, 1)

/-- The first integer of a reply is an error code and not a number of events. -/
def isNegative (err : Word) : Bool := err.toInt < 0

/-- The first integer of a reply is an error code and not `ET_OK`. -/
def isNotOk (err : Word) : Bool := err ≠ etOk

/-- **Ask again after a timeout.**  The first of the `n` words of the reply is an error if
`failed` says so; otherwise `finish` goes on under the lock.  A routine that sleeps can ask
forever; `fuel` bounds how often it does here. -/
def etrRetry {α : Type} (request : List Byte) (n : ℕ) (wait : Word) (failed : Word → Bool)
    (finish : List Word → Routine (Except Word α)) : ℕ → ℤ → Routine (Except Word α)
  | 0, _ => .hang
  | fuel + 1, iterations =>
      .exchange request (4 * n) (.error etErrorWrite) (.error etErrorRead) fun piece =>
        let incoming := getWords n piece
        let err := incoming.getD 0 0
        if err = etErrorTimeout then
          .unlock <| if wait = etSleep ∨ 0 < iterations then
              etrRetry request n wait failed finish fuel (iterations - 1)
            else .ret (.error err)
        else if failed err then .unlock (.ret (.error err))
        else finish incoming

/-- Modifying the whole event has precedence over modifying only the header. -/
def getModify (mode : Word) : Word :=
  let modify := mode &&& etModify
  if modify = 0 then mode &&& etModifyHeader else modify

/-- The request of `etr_event_get`. -/
def eventGetRequest (att mode : Word) (t : Timing) : List Byte :=
  putWords [Command.evGet.code, att, t.wait, getModify mode ||| (mode &&& etDump), t.sec, t.nsec]

/-- The rest of the reply to `etr_event_get`: header and data.  Both mallocs can fail. -/
def recvEvent {α : Type} (big : Bool) (modify : Word) (noEvent noData readError : Routine α)
    (next : ClientEvent → Routine α) : Routine α :=
  .recv 60 fun
    | none => readError
    | some piece =>
        let header := getWords 15 piece
        let len := uint64 (header.getD 0 0) (header.getD 1 0)
        .choose fun ok => if !ok then noEvent else
        .choose fun ok => if !ok then noData else
        if len = 0 then next (.ofHeader big modify header []) else
        recvData len fun
          | none => readError
          | some data => next (.ofHeader big modify header data)

/-- `etr_event_get`. -/
def etrEventGet (big : Bool) (fuel : ℕ) (att mode : Word) (deltatime : Option (ℤ × ℤ)) :
    Routine (Except Word ClientEvent) :=
  let t := (netTiming mode deltatime).1
  etrRetry (eventGetRequest att mode t) 1 (mode &&& etWaitMask) isNotOk
    (fun _ => recvEvent big (getModify mode) (.unlock (.ret (.error etErrorRemote)))
      (.unlock (.ret (.error etErrorRemote))) (.unlock (.ret (.error etErrorRead)))
      fun ev => .unlock (.ret (.ok ev)))
    fuel (netTiming mode deltatime).2

/-- The request of `etr_events_get`. -/
def eventsGetRequest (att mode num : Word) (t : Timing) : List Byte :=
  putWords [Command.evsGet.code, att, t.wait, getModify mode ||| (mode &&& etDump), num, t.sec,
    t.nsec]

/-- The events `etr_events_get` still has to read.  When there is no memory for an event the
routine stops reading but reports success. -/
def recvEvents (big : Bool) (modify : Word) :
    ℕ → List ClientEvent → Routine (Except Word (List ClientEvent))
  | 0, evs => .unlock (.ret (.ok evs))
  | n + 1, evs =>
      recvEvent big modify (.unlock (.ret (.ok evs))) (.unlock (.ret (.error etErrorRemote)))
        (.unlock (.ret (.error etErrorRead))) fun ev => recvEvents big modify n (evs ++ [ev])

/-- `etr_events_get`. -/
def etrEventsGet (big : Bool) (fuel : ℕ) (att mode num : Word) (deltatime : Option (ℤ × ℤ)) :
    Routine (Except Word (List ClientEvent)) :=
  let t := (netTiming mode deltatime).1
  .choose fun ok => if !ok then .ret (.error etErrorRemote) else
  etrRetry (eventsGetRequest att mode num t) 1 (mode &&& etWaitMask) isNegative
    (fun incoming => .recv 8 fun
      | none => .unlock (.ret (.error etErrorRead))
      | some _ => recvEvents big (getModify mode) (incoming.getD 0 0).toNat [])
    fuel (netTiming mode deltatime).2

/-! ## Making events -/

/-- A new event of a client: the values of `et_init_event`, the place and the size. -/
def newClientEvent (place : Word) (size eventsize : BitVec 64) (pdata : Option Buffer) :
    ClientEvent where
  place := place
  length := size
  memsize := eventsize
  priority := 0
  datastatus := 0
  byteorder := 0x04030201
  control := ⟨0, 0, 0, 0, 0, 0⟩
  modify := etModify
  pdata := pdata

/-- The memory of a new event: the standard size `esize` of the system, or what is asked for
if that is more. -/
def eventSize (esize size : BitVec 64) : BitVec 64 := if esize < size then size else esize

/-- Memory for the new events at the given places is allocated, unless the user supplies it. -/
def makeEvents (mode : Word) (size eventsize : BitVec 64) :
    List Word → List ClientEvent → Routine (Except Word (List ClientEvent))
  | [], evs => .ret (.ok evs)
  | place :: places, evs =>
      .choose fun ok => if !ok then .ret (.error etErrorRemote) else
      if mode &&& etNoalloc = 0 then
        .choose fun ok => if !ok then .ret (.error etErrorRemote) else
        makeEvents mode size eventsize places
          (evs ++ [newClientEvent place size eventsize (some .empty)])
      else makeEvents mode size eventsize places (evs ++ [newClientEvent place size eventsize none])

/-- `etr_event_new`. -/
def etrEventNew (fuel : ℕ) (esize : BitVec 64) (att mode : Word) (deltatime : Option (ℤ × ℤ))
    (size : BitVec 64) : Routine (Except Word (List ClientEvent)) :=
  let t := (netTiming mode deltatime).1
  etrRetry
    (putWords [Command.evNew.code, att, t.wait, highInt size, lowInt size, t.sec, t.nsec]) 3
    (mode &&& etWaitMask) isNotOk
    (fun incoming => .unlock (makeEvents mode size (eventSize esize size) [incoming.getD 1 0] []))
    fuel (netTiming mode deltatime).2

/-- What `etr_events_new` and `etr_events_new_group` do when the server has the events: the
places are read, under the lock. -/
def recvPlaces (esize : BitVec 64) (mode : Word) (size : BitVec 64) (incoming : List Word) :
    Routine (Except Word (List ClientEvent)) :=
  let nevents := (incoming.getD 0 0).toNat
  .choose fun ok => if !ok then .unlock (.ret (.error etErrorRemote)) else
  recvData (BitVec.ofNat 64 (4 * nevents)) fun
    | none => .unlock (.ret (.error etErrorRead))
    | some piece =>
        .unlock (makeEvents mode size (eventSize esize size) (getWords nevents piece) [])

/-- `etr_events_new`. -/
def etrEventsNew (fuel : ℕ) (esize : BitVec 64) (att mode : Word) (deltatime : Option (ℤ × ℤ))
    (size : BitVec 64) (num : Word) : Routine (Except Word (List ClientEvent)) :=
  let t := (netTiming mode deltatime).1
  .choose fun ok => if !ok then .ret (.error etErrorRemote) else
  etrRetry
    (putWords [Command.evsNew.code, att, t.wait, highInt size, lowInt size, num, t.sec, t.nsec]) 1
    (mode &&& etWaitMask) isNegative (recvPlaces esize mode size) fuel
    (netTiming mode deltatime).2

/-- `etr_events_new_group`. -/
def etrEventsNewGroup (fuel : ℕ) (esize : BitVec 64) (att mode : Word)
    (deltatime : Option (ℤ × ℤ)) (size : BitVec 64) (num group : Word) :
    Routine (Except Word (List ClientEvent)) :=
  let t := (netTiming mode deltatime).1
  .choose fun ok => if !ok then .ret (.error etErrorRemote) else
  etrRetry
    (putWords [Command.evsNewGrp.code, att, t.wait, highInt size, lowInt size, num, group, t.sec,
      t.nsec]) 1
    (mode &&& etWaitMask) isNegative (recvPlaces esize mode size) fuel
    (netTiming mode deltatime).2

/-! ## Putting and dumping events -/

/-- The client has said that it changes the event. -/
def ClientEvent.modified (ev : ClientEvent) : Prop := 0 < ev.modify.toInt

instance (ev : ClientEvent) : Decidable ev.modified := inferInstanceAs (Decidable (_ < _))

/-- What is sent of an event that is put: its header, and its data if they may have changed. -/
def ClientEvent.putBytes (big : Bool) (ev : ClientEvent) : List Byte :=
  putWords (putHeader big ev) ++
    if ev.modify = etModify then (ev.pdata.getD .empty).read ev.length.toNat else []

/-- The data are to be sent but there are none. -/
def ClientEvent.lacksData (ev : ClientEvent) : Prop := ev.modify = etModify ∧ ev.pdata = none

instance (ev : ClientEvent) : Decidable ev.lacksData :=
  decidable_of_iff (ev.modify = etModify ∧ ev.pdata.isNone)
    (and_congr_right fun _ => Option.isNone_iff_eq_none)

/-- The request of `etr_event_put`. -/
def eventPutRequest (big : Bool) (att : Word) (ev : ClientEvent) : List Byte :=
  putWords [Command.evPut.code, att] ++ ev.putBytes big

/-- `etr_event_put`. -/
def etrEventPut (big : Bool) (att : Word) (ev : ClientEvent) : Routine Word :=
  if ev.memsize < ev.length then .ret etError
  else if ¬ ev.modified then .ret etOk
  else if ev.lacksData then .ret etErrorRemote
  else exchangev (eventPutRequest big att ev) 4 etErrorWrite etErrorRead fun piece =>
    .unlock (.ret (ntohl piece))

/-- The request of `etr_events_put`. -/
def eventsPutRequest (big : Bool) (att : Word) (evs : List ClientEvent) : List Byte :=
  let body := evs.flatMap (·.putBytes big)
  let bytes := BitVec.ofNat 64 body.length
  putWords [Command.evsPut.code, att, BitVec.ofNat 32 evs.length, highInt bytes, lowInt bytes] ++ body

/-- An array of events and its length, an `int`. -/
abbrev EventArray := { evs : List ClientEvent // evs.length < 2 ^ 31 }

/-- The events of an array that are sent. -/
def EventArray.sent (evs : EventArray) : List ClientEvent := evs.1.filter fun ev => ev.modified

/-- `etr_events_put`. -/
def etrEventsPut (big : Bool) (att : Word) (evs : EventArray) : Routine Word :=
  if ∃ ev ∈ evs.1, ev.memsize < ev.length then .ret etError else
  let sent := evs.sent
  if sent = [] then .ret etOk else
  .choose fun ok => if !ok then .ret etErrorRemote else
  if ∃ ev ∈ sent, ev.lacksData then .ret etErrorRemote else
  exchangev (eventsPutRequest big att sent) 4 etErrorWrite etErrorRead fun piece =>
    .unlock (.ret (ntohl piece))

/-- `etr_event_dump`. -/
def etrEventDump (att : Word) (ev : ClientEvent) : Routine Word :=
  if ¬ ev.modified then .ret etOk
  else .exchange (putWords [Command.evDump.code, att, ev.place]) 4 etErrorWrite etErrorRead
    fun piece => .unlock (.ret (ntohl piece))

/-- The request of `etr_events_dump`. -/
def eventsDumpRequest (att : Word) (evs : List ClientEvent) : List Byte :=
  putWords (Command.evsDump.code :: att :: BitVec.ofNat 32 evs.length :: evs.map (·.place))

/-- `etr_events_dump`.  The size of the request is an `int`; when it is too large nothing is
written. -/
def etrEventsDump (att : Word) (evs : EventArray) : Routine Word :=
  let sent := evs.sent
  if sent = [] then .ret etOk else
  .choose fun ok => if !ok then .ret etErrorRemote else
  if 2 ^ 31 ≤ 4 * (sent.length + 3) then .lock (.unlock (.ret etErrorWrite)) else
  .exchange (eventsDumpRequest att sent) 4 etErrorWrite etErrorRead fun piece =>
    .unlock (.ret (ntohl piece))

end EventTransfer
