import EventTransfer.JavaEvents

/-!
# The Java client

The routines of `EtSystem.java` that get, make and put events over the network, from where
their arguments have been checked, against a Java system.  They have the requests and the
retries of `et_remote.c` (`etrRetry`); the reply is read otherwise, and an exception leaves in
the socket what has not been read.  An exception gives back the lock and is an error here, with
the code it stands for if it stands for one.

An event of the Java client is a `ClientEvent` whose lengths are `int`s; its `memsize` is the
limit of `setLength`.
-/

namespace EventTransfer

open Wire Exchange

/-- `Mode.ASYNC`. -/
def etAsync : Word := 2

/-- A `Mode`. -/
abbrev JavaMode := { w : Word // w = etSleep ∨ w = etTimed ∨ w = etAsync }

/-- A `Modify`. -/
abbrev JavaModify := { w : Word // w = 0 ∨ w = etModify ∨ w = etModifyHeader }

/-- The errors the commands for events are answered with: `error`, `errorWakeUp`,
`errorTimeout`, `errorEmpty` and `errorBusy`. -/
def javaErrors : List Word := [-1, -4, -5, -6, -7]

/-- An exception is thrown for the first integer of a reply. -/
def javaThrows (err : Word) : Bool := err ∈ javaErrors

/-- A `long` as an `int`. -/
def javaInt (x : BitVec 64) : ℤ := (x.truncate 32).toInt

/-- How long to ask the server to wait, and how often to ask again. -/
def javaTiming (mode : Word) (microSec : ℤ) : Timing × ℤ :=
  if mode = etSleep then (⟨etTimed, 0, 200000000⟩, 1)
  else if mode = etTimed ∧ 1000000 < microSec then
    (⟨etTimed, 0, 200000000⟩, microSec / 200000 + if 0 < microSec % 200000 then 1 else 0)
  else if 0 < microSec then
    (⟨mode, .ofInt 32 (microSec / 1000000), .ofInt 32 (microSec % 1000000 * 1000)⟩, 1)
  else (⟨mode, 0, 0⟩, 1)

/-! ## Getting events -/

/-- The request of `getEvents`. -/
def javaEventsGetRequest (att modify count : Word) (t : Timing) : List Byte :=
  putWords [Command.evsGet.code, att, t.wait, modify, count, t.sec, t.nsec]

/-- The events `getEvents` still has to read.  There is an exception where an array of
`memSize` bytes cannot be made, where `length` is more, and for a byte order that is no mark. -/
def javaRecvEvents (modify : Word) :
    ℕ → List ClientEvent → Routine (Except Word (List ClientEvent))
  | 0, evs => .unlock (.ret (.ok evs))
  | n + 1, evs => .recv 60 fun
      | none => .unlock (.ret (.error etErrorRead))
      | some piece =>
          let header := getWords 15 piece
          let length := javaInt (uint64 (header.getD 0 0) (header.getD 1 0))
          let memSize := javaInt (uint64 (header.getD 2 0) (header.getD 3 0))
          if memSize < 0 ∨ length < 0 ∨ memSize < length ∨ ¬ IsMark (header.getD 7 0) then
            .unlock (.ret (.error etError))
          else .recv length.toNat fun
            | none => .unlock (.ret (.error etErrorRead))
            | some data => javaRecvEvents modify n (evs ++
                [{ ClientEvent.ofHeader true modify header data with
                    length := .ofInt 64 length, memsize := .ofInt 64 memSize }])

/-- `getEvents`.  A negative number of events that is no known error is the size of an array
after the total has been skipped. -/
def javaGetEvents (fuel : ℕ) (att mode modify : Word) (microSec : ℤ) (count : Word) :
    Routine (Except Word (List ClientEvent)) :=
  let t := (javaTiming mode microSec).1
  etrRetry (javaEventsGetRequest att modify count t) 1 mode javaThrows
    (fun incoming => .recv 8 fun
      | none => .unlock (.ret (.error etErrorRead))
      | some _ =>
          let err := incoming.getD 0 0
          if isNegative err then .unlock (.ret (.error etError))
          else javaRecvEvents modify err.toNat [])
    fuel (javaTiming mode microSec).2

/-! ## Putting events -/

/-- The request of `putEvents`; the number of bytes is the sum as an `int`. -/
def javaEventsPutRequest (att : Word) (evs : List ClientEvent) : List Byte :=
  let body := evs.flatMap (·.putBytes true)
  let bytes := (BitVec.ofNat 32 body.length).signExtend 64
  putWords [Command.evsPut.code, att, BitVec.ofNat 32 evs.length, highInt bytes, lowInt bytes] ++ body

/-- `putEvents` of events that all have their data.  What the server answers is not looked
at. -/
def javaPutEvents (att : Word) (evs : EventArray) : Routine Unit :=
  if evs.sent = [] then .ret ()
  else .exchange (javaEventsPutRequest att evs.sent) 4 () () fun _ => .unlock (.ret ())

end EventTransfer
