import EventTransfer.JavaPutting

/-!
# What the Java server answers to requests for events

The commands `netEvNew`, `netEvsNew` and `netEvsNewGrp` of `SystemTcpServer.commandLoop`, with
the stream `out` of the thread as it is: what is written is sent when it is flushed.  Their
clients are `etr_event_new`, `etr_events_new` and `etr_events_new_group` (`et_remote.c`) and the
two routines `newEvents` of `EtSystem.java` that return an array.

How the system gets the events is a parameter, `JavaMaker`: any number of events, or one of the
exceptions the loop has a code for.  A thread that is asked to sleep waits for four seconds
again and again, which is one call here.

* `JavaMaker.javaNewLoop` — one round of the command loop, as far as it makes events.
* `JavaMaker.MakesEvent`, `MakesEvents`, `MakesGroup`, `JavaMakes` — a call of a client has the
  result of the call in the server, and nothing is left on its way.
* `javaReplies_inStep_iff` — when this is so, and when the replies with events are read.
-/

namespace EventTransfer

open Wire Exchange

variable {τ : Type}

/-! ## The server -/

/-- `ET_ERROR_TOOBIG`. -/
def etErrorTooBig : Failure := ⟨-13, by decide⟩

/-- The exceptions that have a code. -/
inductive JavaException where
  | general
  | busy
  | empty
  | wakeUp
  | timeout

/-- The code of an exception. -/
def JavaException.code : JavaException → Failure
  | general => ⟨-1, by decide⟩
  | busy => ⟨-7, by decide⟩
  | empty => failureEmpty
  | wakeUp => ⟨-4, by decide⟩
  | timeout => ⟨-5, by decide⟩

theorem JavaException.throws (ex : JavaException) : javaThrows ex.code.1 = true := by
  cases ex <;> decide

/-- **The calls `newEvents` of the system**, for an attachment of the client, a positive number
of events and their size.  The call for one event gives one. -/
structure JavaMaker (τ : Type) where
  newEvent : Word → Timing → ℤ → Memory τ → Memory τ × Except JavaException Word
  newEvents : Word → Timing → Word → ℤ → Memory τ → Memory τ × Except JavaException Places
  newEventsGroup : Word → Timing → Word → ℤ → Word → Memory τ →
    Memory τ × Except JavaException Places

/-- A thread: the system, and what has been written and not flushed. -/
abbrev ClientThread (τ : Type) := Memory τ × List Byte

/-- What a step of the loop gives: the thread, or `none` when it has ended, and what has been
sent. -/
abbrev JavaAnswer (τ : Type) := Option (ClientThread τ) × List Byte

namespace ClientThread

/-- `out.write`. -/
def write (thread : ClientThread τ) (bytes : List Byte) : ClientThread τ :=
  (thread.1, thread.2 ++ bytes)

/-- Nothing more is done. -/
def keep (thread : ClientThread τ) : JavaAnswer τ := (some thread, [])

/-- `out.flush`. -/
def flush (thread : ClientThread τ) : JavaAnswer τ := (some (thread.1, []), thread.2)

end ClientThread

/-- `bit64 && size > Integer.MAX_VALUE/5`, of a `long`. -/
def JavaTooBig (bit64 : Bool) (size : BitVec 64) : Prop := bit64 = true ∧ 429496729 < size.toInt

instance (bit64 : Bool) (size : BitVec 64) : Decidable (JavaTooBig bit64 size) :=
  inferInstanceAs (Decidable (_ ∧ _))

/-- `count*size`. -/
def javaProduct (count : Word) (size : BitVec 64) : BitVec 64 := count.signExtend 64 * size

/-- The end of `netEvsNew` and `netEvsNewGrp`.  There is an exception when no array can be made
for the reply. -/
def javaAnswerNew (pending : List Byte) : Memory τ × Except JavaException Places → JavaAnswer τ
  | (m, .error ex) => (ClientThread.write (m, pending) (putWords [ex.code.1])).flush
  | (m, .ok ids) =>
      if 2 ^ 31 ≤ 4 + 4 * ids.1.length then (none, [])
      else
        (ClientThread.write (m.setModifyAll etModify ids.1, pending)
          (putWords (BitVec.ofNat 32 ids.1.length :: ids.1))).flush

namespace JavaMaker

variable (J : JavaMaker τ) (bit64 : Bool)

/-- `netEvNew`. -/
def javaEventNew (thread : ClientThread τ) : Reader (JavaAnswer τ) := do
  let params ← readWords 6
  let size := uint64 (params.getD 2 0) (params.getD 3 0)
  if JavaTooBig bit64 size then return (thread.write (putWords [etErrorTooBig.1, 0, 0])).keep
  else
    match J.newEvent (params.getD 0 0) ⟨params.getD 1 0, params.getD 4 0, params.getD 5 0⟩
        (javaInt size) thread.1 with
    | (m, .error ex) => return (ClientThread.write (m, thread.2) (putWords [ex.code.1, 0, 0])).flush
    | (m, .ok id) =>
        return (ClientThread.write (m.setModify etModify id, thread.2)
          (putWords [etOk, id, 0])).flush

/-- `netEvsNew`. -/
def javaEventsNew (thread : ClientThread τ) : Reader (JavaAnswer τ) := do
  let params ← readWords 7
  let size := uint64 (params.getD 2 0) (params.getD 3 0)
  let count := params.getD 4 0
  if JavaTooBig bit64 (javaProduct count size) then
    return (thread.write (putWords [etErrorTooBig.1])).keep
  else
    return javaAnswerNew thread.2 (J.newEvents (params.getD 0 0)
      ⟨params.getD 1 0, params.getD 5 0, params.getD 6 0⟩ count (javaInt size) thread.1)

/-- `netEvsNewGrp`. -/
def javaEventsNewGroup (thread : ClientThread τ) : Reader (JavaAnswer τ) := do
  let params ← readWords 8
  let size := uint64 (params.getD 2 0) (params.getD 3 0)
  let count := params.getD 4 0
  if JavaTooBig bit64 (javaProduct count size) then
    return (thread.write (putWords [etErrorTooBig.1])).keep
  else
    return javaAnswerNew thread.2 (J.newEventsGroup (params.getD 0 0)
      ⟨params.getD 1 0, params.getD 6 0, params.getD 7 0⟩ count (javaInt size)
      (params.getD 5 0) thread.1)

/-- **The command loop of the Java server**, where it makes events. -/
def javaNewLoop : Server (Option (ClientThread τ)) :=
  fun thread => show Reader (JavaAnswer τ) from
    match thread with
    | none => failure
    | some thread => do
        match Command.ofCode (← readWord) with
        | some .evNew => J.javaEventNew bit64 thread
        | some .evsNew => J.javaEventsNew bit64 thread
        | some .evsNewGrp => J.javaEventsNewGroup bit64 thread
        | _ => failure

end JavaMaker

/-! ## The Java client -/

/-- A new event of the Java client, for a Java system. -/
def newEventImpl (noBuffer : Bool) (sizeLimit : BitVec 64) (id : Word) : ClientEvent where
  place := id
  length := 0
  memsize := sizeLimit
  priority := 0
  datastatus := 0
  byteorder := 0x04030201
  control := ⟨0, 0, 0, 0, 0, 0⟩
  modify := etModify
  pdata := if noBuffer then none else some .empty

/-- What `newEvents` does with a number that is no known error: the ids are read into an array
of `4*numEvents` bytes, an `int`. -/
def javaRecvIds (noBuffer : Bool) (sizeLimit : BitVec 64) (incoming : List Word) :
    Routine (Except Word (List ClientEvent)) :=
  let err := incoming.getD 0 0
  let bytes := (4 * err).toInt
  if isNegative err ∨ bytes < 0 then .unlock (.ret (.error etError))
  else .recv bytes.toNat fun
    | none => .unlock (.ret (.error etErrorRead))
    | some piece =>
        if piece.length < 4 * err.toNat then .unlock (.ret (.error etError))
        else .unlock (.ret (.ok ((getWords err.toNat piece).map (newEventImpl noBuffer sizeLimit))))

/-- The arguments of `newEvents`; `group` is for the routine that has one. -/
structure NewArgs where
  mode : JavaMode
  noBuffer : Bool
  microSec : ℤ
  count : Word
  size : Word
  group : Option Word

namespace NewArgs

variable (a : NewArgs)

/-- `size` as a `long`. -/
def longSize : BitVec 64 := a.size.signExtend 64

/-- What is returned, or thrown, before anything is sent. -/
def early : Option (Except Word (List ClientEvent)) :=
  if a.count = 0 then some (.ok [])
  else if a.count.toInt < 0 ∨ (a.microSec < 0 ∧ a.mode.1 = etTimed) ∨ a.size.toInt < 1 ∨
      (∃ group ∈ a.group, group.toInt < 1) then
    some (.error etError)
  else none

/-- The request. -/
def request (att : Word) : List Byte :=
  let t := (javaTiming a.mode.1 a.microSec).1
  let front := [att, t.wait, highInt a.longSize, lowInt a.longSize, a.count]
  match a.group with
  | none => putWords (Command.evsNew.code :: front ++ [t.sec, t.nsec])
  | some group => putWords (Command.evsNewGrp.code :: front ++ [group, t.sec, t.nsec])

end NewArgs

/-- **`newEvents`** of the Java client; `esize` is the size of the system's events. -/
def javaNewEvents (fuel : ℕ) (esize : BitVec 64) (att : Word) (a : NewArgs) :
    Routine (Except Word (List ClientEvent)) :=
  match a.early with
  | some r => .ret r
  | none =>
      etrRetry (a.request att) 1 a.mode.1 javaThrows
        (javaRecvIds a.noBuffer (eventSize esize a.longSize)) fuel
        (javaTiming a.mode.1 a.microSec).2

/-! ## What is expected -/

/-- The codes of a call's exceptions. -/
def withCodes {α : Type} (r : Memory τ × Except JavaException α) : Memory τ × Except Failure α :=
  (r.1, r.2.mapError JavaException.code)

theorem withCodes_error {α : Type} {r : Memory τ × Except JavaException α} {m : Memory τ}
    {err : Failure} (h : withCodes r = (m, .error err)) : ∃ ex, r = (m, .error ex) ∧ err = ex.code := by
  obtain ⟨m', ex | a⟩ := r
  · obtain ⟨rfl, herr⟩ := Prod.mk.inj h
    exact ⟨ex, rfl, (Except.error.inj herr).symm⟩
  · exact nomatch (Prod.mk.inj h).2

theorem withCodes_ok {α : Type} {r : Memory τ × Except JavaException α} {m : Memory τ} {a : α}
    (h : withCodes r = (m, .ok a)) : r = (m, .ok a) := by
  obtain ⟨m', ex | b⟩ := r
  · exact nomatch (Prod.mk.inj h).2
  · obtain ⟨rfl, hok⟩ := Prod.mk.inj h
    cases hok
    rfl

/-- The request of `etr_events_new` and `etr_events_new_group`, and of `newEvents`. -/
def eventsNewRequest (att : Word) (t : Timing) (size : BitVec 64) (count : Word) :
    Option Word → List Byte
  | none => putWords [Command.evsNew.code, att, t.wait, highInt size, lowInt size, count, t.sec,
      t.nsec]
  | some group => putWords [Command.evsNewGrp.code, att, t.wait, highInt size, lowInt size, count,
      group, t.sec, t.nsec]

theorem NewArgs.request_eq (a : NewArgs) (att : Word) :
    a.request att =
      eventsNewRequest att (javaTiming a.mode.1 a.microSec).1 a.longSize a.count a.group := by
  rw [NewArgs.request]
  cases a.group <;> rfl

namespace JavaMaker

variable (J : JavaMaker τ) (bit64 : Bool)

/-- The call for several events, with or without a group. -/
def newFor (att : Word) (t : Timing) (count : Word) (size : ℤ) :
    Option Word → Memory τ → Memory τ × Except JavaException Places
  | none => J.newEvents att t count size
  | some group => J.newEventsGroup att t count size group

/-- What comes of a request for one event. -/
def eventCall (att : Word) (t : Timing) (size : BitVec 64) (m : Memory τ) :
    Memory τ × Except Failure Word :=
  if JavaTooBig bit64 size then (m, .error etErrorTooBig)
  else withCodes (J.newEvent att t (javaInt size) m)

/-- What comes of a request for several. -/
def eventsCall (att : Word) (t : Timing) (size : BitVec 64) (count : Word) (group : Option Word)
    (m : Memory τ) : Memory τ × Except Failure Places :=
  if JavaTooBig bit64 (javaProduct count size) then (m, .error etErrorTooBig)
  else withCodes (J.newFor att t count (javaInt size) group m)

/-- The server waits for a request, and everything has been flushed. -/
def ready (m : Memory τ) : Option (ClientThread τ) := some (m, [])

/-- **A client's call has the result of the call in the server**, which waits for the next
request with nothing on its way.  An error code is that error, and of the events of a success
there are as many for the client, all to be modified. -/
def InStep {β : Type} (r : Routine (Except Word (List ClientEvent)))
    (result : β → List ClientEvent) (after : Memory τ → β → Memory τ) (m : Memory τ)
    (asked : Option (Memory τ × Except Failure β)) : Prop :=
  converse (J.javaNewLoop bit64) r (.quiet (ready m)) =
    match asked with
    | none => none
    | some (m', .error err) => some (.error err.1, .quiet (ready m'))
    | some (m', .ok b) => some (.ok (result b), .quiet (ready (after m' b)))

/-- What a client of `et_remote.c` has of a new event. -/
def remoteEvent (esize : BitVec 64) (mode : Word) (size : BitVec 64) (place : Word) : ClientEvent :=
  newClientEvent place size (eventSize esize size)
    (if mode &&& etNoalloc = 0 then some .empty else none)

/-- What the requests for one event give, at most `fuel` of them. -/
def askedEvent (fuel : ℕ) (att mode : Word) (deltatime : Option (ℤ × ℤ)) (size : BitVec 64)
    (m : Memory τ) : Option (Memory τ × Except Failure Word) :=
  askAgain (mode &&& etWaitMask) (J.eventCall bit64 att (netTiming mode deltatime).1 size) fuel
    (netTiming mode deltatime).2 m

/-- What the requests for several events give. -/
def askedEvents (fuel : ℕ) (att mode : Word) (deltatime : Option (ℤ × ℤ)) (size : BitVec 64)
    (count : Word) (group : Option Word) (m : Memory τ) :
    Option (Memory τ × Except Failure Places) :=
  askAgain (mode &&& etWaitMask)
    (J.eventsCall bit64 att (netTiming mode deltatime).1 size count group) fuel
    (netTiming mode deltatime).2 m

/-- What the requests of the Java client give. -/
def askedJava (fuel : ℕ) (att : Word) (a : NewArgs) (m : Memory τ) :
    Option (Memory τ × Except Failure Places) :=
  askAgain a.mode.1
    (J.eventsCall bit64 att (javaTiming a.mode.1 a.microSec).1 a.longSize a.count a.group) fuel
    (javaTiming a.mode.1 a.microSec).2 m

/-! ## One round -/

/-- **One event**, as the loop serves it. -/
theorem run_javaEventNew (att : Word) (t : Timing) (size : BitVec 64) (m : Memory τ) :
    J.javaNewLoop bit64 (ready m)
        (putWords [Command.evNew.code, att, t.wait, highInt size, lowInt size, t.sec, t.nsec]) =
      if JavaTooBig bit64 size then
        some ((some (m, putWords [etErrorTooBig.1, 0, 0]), []), [])
      else
        match J.newEvent att t (javaInt size) m with
        | (m', .error ex) => some ((ready m', putWords [ex.code.1, 0, 0]), [])
        | (m', .ok id) =>
            some ((ready (m'.setModify etModify id), putWords [etOk, id, 0]), []) := by
  rw [putWords_cons]
  refine run_bind_of (run_readWord _ _) ?_
  rw [Command.ofCode_code]
  rw [← List.append_nil (putWords _)]
  refine run_bind_of (run_readWords (by rfl) _) ?_
  simp only [List.getD_cons_zero, List.getD_cons_succ, uint64_highInt_lowInt]
  split
  case isTrue => rfl
  case isFalse =>
    rcases J.newEvent att ⟨t.wait, t.sec, t.nsec⟩ (javaInt size) m with ⟨m', ex | id⟩
    · rfl
    · rfl

/-- **Several events**, as the loop serves them. -/
theorem run_javaEventsNew (att : Word) (t : Timing) (size : BitVec 64) (count : Word)
    (group : Option Word) (m : Memory τ) :
    J.javaNewLoop bit64 (ready m) (eventsNewRequest att t size count group) =
      if JavaTooBig bit64 (javaProduct count size) then
        some ((some (m, putWords [etErrorTooBig.1]), []), [])
      else some (javaAnswerNew [] (J.newFor att t count (javaInt size) group m), []) := by
  cases group with
  | none =>
      rw [eventsNewRequest, putWords_cons]
      refine run_bind_of (run_readWord _ _) ?_
      rw [Command.ofCode_code, ← List.append_nil (putWords _)]
      refine run_bind_of (run_readWords (by rfl) _) ?_
      simp only [List.getD_cons_zero, List.getD_cons_succ, uint64_highInt_lowInt]
      split <;> rfl
  | some group =>
      rw [eventsNewRequest, putWords_cons]
      refine run_bind_of (run_readWord _ _) ?_
      rw [Command.ofCode_code, ← List.append_nil (putWords _)]
      refine run_bind_of (run_readWords (by rfl) _) ?_
      simp only [List.getD_cons_zero, List.getD_cons_succ, uint64_highInt_lowInt]
      split <;> rfl

/-- A request that is refused as too big is not answered. -/
theorem unanswered {r : Routine (Except Word (List ClientEvent))} {β : Type}
    {result : β → List ClientEvent} {after : Memory τ → β → Memory τ} {m : Memory τ}
    {asked : Option (Memory τ × Except Failure β)}
    (hr : converse (J.javaNewLoop bit64) r (.quiet (ready m)) = none) (hasked : asked ≠ none) :
    ¬ J.InStep bit64 r result after m asked := by
  intro h
  unfold InStep at h
  rw [hr] at h
  rcases asked with _ | ⟨m', err | b⟩
  · exact hasked rfl
  · exact nomatch h
  · exact nomatch h

/-- A request without an answer, from a client that waits for some bytes of it. -/
theorem converse_etrRetry_unanswered {α : Type} {σ : Type*} {serve : Server σ} {s t : σ}
    {request rest : List Byte} {n : ℕ} (hserve : serve s request = some ((t, []), rest))
    (hn : 0 < n) (wait : Word) (failed : Word → Bool)
    (finish : List Word → Routine (Except Word α)) (fuel : ℕ) (iterations : ℤ) :
    converse serve (etrRetry request n wait failed finish (fuel + 1) iterations) (.quiet s) =
      none := by
  have hlong : ¬ 4 * n ≤ ([] : List Byte).length := by
    rw [List.length_nil]
    omega
  simp only [etrRetry, Routine.exchange, converse, Conn.quiet, List.nil_append, hserve, if_true,
    List.append_nil, if_neg hlong]

theorem askAgain_tooBig {β : Type} {wait : Word} {call : Memory τ → Memory τ × Except Failure β}
    {m : Memory τ} (h : call m = (m, .error etErrorTooBig)) (fuel : ℕ) (iterations : ℤ) :
    askAgain wait call (fuel + 1) iterations m = some (m, .error etErrorTooBig) := by
  have hcode : ¬ (etErrorTooBig.1 = etErrorTimeout ∧ (wait = etSleep ∨ 0 < iterations)) := by
    rintro ⟨hcode, -⟩
    exact absurd hcode (by decide)
  rw [askAgain, h]
  dsimp only
  rw [if_neg hcode]

theorem converse_makeEvents {σ : Type*} {serve : Server σ} (esize size : BitVec 64) (mode : Word)
    (places : List Word) (evs : List ClientEvent) (c : Conn σ) :
    converse serve (makeEvents mode size (eventSize esize size) places evs) c =
      some (.ok (evs ++ places.map (remoteEvent esize mode size)), c) := by
  induction places generalizing evs with
  | nil =>
      rw [List.map_nil, List.append_nil]
      rfl
  | cons place places ih =>
      rw [makeEvents, converse_choose, if_neg (by decide), List.map_cons, remoteEvent]
      by_cases hmode : mode &&& etNoalloc = 0
      · rw [if_pos hmode, converse_choose, if_neg (by decide), ih, List.append_assoc,
          List.singleton_append, if_pos hmode]
      · rw [if_neg hmode, ih, List.append_assoc, List.singleton_append, if_neg hmode]

/-- **Asking again** is in step exactly when each success is that the client can come to, if the
server answers each request that fails as the call says. -/
theorem inStep_etrRetry_iff {β : Type} {request : List Byte} {n : ℕ} {failed : Word → Bool}
    (wait : Word) (call : Memory τ → Memory τ × Except Failure β)
    (finish : List Word → Routine (Except Word (List ClientEvent))) (pad : List Word)
    (result : β → List ClientEvent) (after : Memory τ → β → Memory τ) (Fits : β → Prop)
    (hfailed : ∀ m m' err, call m = (m', .error err) → failed err.1 = true)
    (herror : ∀ m m' err, call m = (m', .error err) →
      J.javaNewLoop bit64 (ready m) request = some ((ready m', putWords (err.1 :: pad)), []))
    (hok : ∀ m m' b fuel iterations, call m = (m', .ok b) →
      (converse (J.javaNewLoop bit64)
          (etrRetry request n wait failed finish (fuel + 1) iterations) (.quiet (ready m)) =
        some (.ok (result b), .quiet (ready (after m' b))) ↔ Fits b))
    (hpad : pad.length + 1 = n) (fuel : ℕ) (iterations : ℤ) (m : Memory τ) :
    J.InStep bit64 (etrRetry request n wait failed finish fuel iterations) result after m
        (askAgain wait call fuel iterations m) ↔
      ∀ m' b, askAgain wait call fuel iterations m = some (m', .ok b) → Fits b := by
  have h := converse_etrRetry_via ready wait call finish pad
    (fun m' b r => r = some (.ok (result b), .quiet (ready (after m' b))) ↔ Fits b)
    hfailed herror hok hpad fuel iterations m
  revert h
  unfold InStep
  generalize askAgain _ _ _ _ _ = asked
  rcases asked with _ | ⟨m', err | b⟩
  · exact fun h => iff_of_true h nofun
  · exact fun h => iff_of_true h nofun
  · refine fun h => h.trans ⟨?_, fun hall => hall m' b rfl⟩
    rintro hfits m'' b' heq
    cases heq
    exact hfits

variable (fuel : ℕ) (esize : BitVec 64) (att mode : Word) (deltatime : Option (ℤ × ℤ))
  (size : BitVec 64) (m : Memory τ)

/-- **`etr_event_new` is in step** with the server. -/
def MakesEvent : Prop :=
  J.InStep bit64 (etrEventNew (fuel + 1) esize att mode deltatime size)
    (fun place => [remoteEvent esize mode size place])
    (fun m' place => m'.setModify etModify place) m
    (J.askedEvent bit64 (fuel + 1) att mode deltatime size m)

theorem makesEvent_iff :
    J.MakesEvent bit64 fuel esize att mode deltatime size m ↔ ¬ JavaTooBig bit64 size := by
  have hrun := J.run_javaEventNew bit64 att (netTiming mode deltatime).1 size
  by_cases hbig : JavaTooBig bit64 size
  · refine iff_of_false (J.unanswered bit64 ?_ ?_) (not_not.mpr hbig)
    · have hserve := hrun m
      rw [if_pos hbig] at hserve
      exact converse_etrRetry_unanswered hserve (by decide) _ _ _ _ _
    · rw [askedEvent, askAgain_tooBig (if_pos hbig)]
      nofun
  · refine iff_of_true ?_ hbig
    have hcall : ∀ m, J.eventCall bit64 att (netTiming mode deltatime).1 size m =
        withCodes (J.newEvent att (netTiming mode deltatime).1 (javaInt size) m) :=
      fun m => if_neg hbig
    refine (J.inStep_etrRetry_iff bit64 (n := 3) _ _ _ [0, 0] _ _ (fun _ => True)
      (fun _ _ err _ => isNotOk_failure err) ?_ ?_ rfl _ _ m).mpr fun _ _ _ => trivial
    · intro m m' err hm
      rw [hcall] at hm
      obtain ⟨ex, hex, rfl⟩ := withCodes_error hm
      rw [hrun, if_neg hbig, hex]
    · intro m m' place fuel iterations hm
      rw [hcall] at hm
      have hserve := hrun m
      rw [if_neg hbig, withCodes_ok hm] at hserve
      have hcode : ([etOk, place, 0] : List Word).getD 0 0 ≠ etErrorTimeout ∧
          isNotOk (([etOk, place, 0] : List Word).getD 0 0) = false := by
        rw [List.getD_cons_zero]
        decide
      refine iff_of_true ?_ trivial
      rw [@converse_etrRetry_ok _ _ _ _ 3 _ _ _ _ _ [etOk, place, 0] []
        (by rw [List.append_nil]; exact hserve) rfl hcode]
      exact converse_makeEvents esize size mode [place] [] _

/-! ## Several events -/

/-- The array for the reply with the events can be made. -/
def FitsReply (ids : Places) : Prop := 4 + 4 * ids.1.length < 2 ^ 31

theorem toNat_length (ids : Places) : (BitVec.ofNat 32 ids.1.length).toNat = ids.1.length := by
  have hlt : ids.1.length < 2 ^ 31 := ids.2
  rw [BitVec.toNat_ofNat]
  omega

/-- **Several events**, for any client whose `failed` takes the codes of the exceptions and no
number of events, and whose `finish` reads as many ids as there are events. -/
theorem inStep_events_iff {failed : Word → Bool} (wait : Word) (t : Timing) (count : Word)
    (group : Option Word) (finish : List Word → Routine (Except Word (List ClientEvent)))
    (result : Places → List ClientEvent) (hthrows : ∀ ex : JavaException, failed ex.code.1 = true)
    (hlength : ∀ ids : Places, failed (BitVec.ofNat 32 ids.1.length) = false)
    (hfinish : ∀ (ids : Places) s, FitsReply ids →
      converse (J.javaNewLoop bit64) (finish [BitVec.ofNat 32 ids.1.length])
        ⟨s, [], putWords ids.1⟩ = some (.ok (result ids), .quiet s))
    (iterations : ℤ) :
    J.InStep bit64
        (etrRetry (eventsNewRequest att t size count group) 1 wait failed finish (fuel + 1)
          iterations)
        result (fun m' ids => m'.setModifyAll etModify ids.1) m
        (askAgain wait (J.eventsCall bit64 att t size count group) (fuel + 1) iterations m) ↔
      ¬ JavaTooBig bit64 (javaProduct count size) ∧
        ∀ m' ids, askAgain wait (J.eventsCall bit64 att t size count group) (fuel + 1) iterations m =
          some (m', .ok ids) → FitsReply ids := by
  have hrun := J.run_javaEventsNew bit64 att t size count group
  by_cases hbig : JavaTooBig bit64 (javaProduct count size)
  · refine iff_of_false (J.unanswered bit64 ?_ ?_) fun h => h.1 hbig
    · have hserve := hrun m
      rw [if_pos hbig] at hserve
      exact converse_etrRetry_unanswered hserve (by decide) _ _ _ _ _
    · rw [askAgain_tooBig (if_pos hbig)]
      nofun
  rw [and_iff_right hbig]
  have hcall : ∀ m, J.eventsCall bit64 att t size count group m =
      withCodes (J.newFor att t count (javaInt size) group m) := fun m => if_neg hbig
  refine J.inStep_etrRetry_iff bit64 (n := 1) _ _ _ [] _ _ FitsReply ?_ ?_ ?_ rfl _ _ m
  · intro m m' err hm
    rw [hcall] at hm
    obtain ⟨ex, -, rfl⟩ := withCodes_error hm
    exact hthrows ex
  · intro m m' err hm
    rw [hcall] at hm
    obtain ⟨ex, hex, rfl⟩ := withCodes_error hm
    rw [hrun, if_neg hbig, hex]
    rfl
  · intro m m' ids fuel iterations hm
    rw [hcall] at hm
    have hserve := hrun m
    rw [if_neg hbig, withCodes_ok hm, javaAnswerNew] at hserve
    by_cases hfits : FitsReply ids
    · rw [if_neg (not_le.mpr hfits)] at hserve
      have hcode : ([BitVec.ofNat 32 ids.1.length] : List Word).getD 0 0 ≠ etErrorTimeout ∧
          failed (([BitVec.ofNat 32 ids.1.length] : List Word).getD 0 0) = false :=
        ⟨(Local.isNegative_length ids.2).1, hlength ids⟩
      refine iff_of_true ?_ hfits
      rw [@converse_etrRetry_ok _ _ _ _ 1 _ _ _ _ _ _ (putWords ids.1) hserve rfl hcode]
      exact hfinish ids _ hfits
    · rw [if_pos (not_lt.mp hfits)] at hserve
      refine iff_of_false (fun h => ?_) hfits
      rw [converse_etrRetry_unanswered hserve (by decide)] at h
      exact nomatch h

/-- The places of `etr_events_new` and `etr_events_new_group`. -/
theorem converse_recvPlaces {σ : Type*} {serve : Server σ} {ids : Places} (hfits : FitsReply ids)
    (s : σ) :
    converse serve (recvPlaces esize mode size [BitVec.ofNat 32 ids.1.length])
        ⟨s, [], putWords ids.1⟩ =
      some (.ok (ids.1.map (remoteEvent esize mode size)), .quiet s) := by
  have hsmall : 4 * ids.1.length < 2 ^ 31 := by
    unfold FitsReply at hfits
    omega
  have hlong : (BitVec.ofNat 64 (4 * ids.1.length)).toNat = 4 * ids.1.length := by
    rw [BitVec.toNat_ofNat]
    omega
  have hlen : (putWords ids.1).length = intLen (BitVec.ofNat 64 (4 * ids.1.length)) := by
    rw [intLen_of_lt (by omega), hlong, length_putWords]
  rw [recvPlaces, converse_choose, if_neg (by decide), List.getD_cons_zero, toNat_length, recvData,
    ← List.append_nil (putWords ids.1), converse_recv hlen, if_pos (by omega)]
  dsimp only
  rw [getWords_putWords rfl]
  exact converse_makeEvents esize size mode ids.1 [] _

/-- The ids of the Java client's `newEvents`. -/
theorem converse_javaRecvIds {σ : Type*} {serve : Server σ} {ids : Places} (hfits : FitsReply ids)
    (noBuffer : Bool) (sizeLimit : BitVec 64) (s : σ) :
    converse serve (javaRecvIds noBuffer sizeLimit [BitVec.ofNat 32 ids.1.length])
        ⟨s, [], putWords ids.1⟩ =
      some (.ok (ids.1.map (newEventImpl noBuffer sizeLimit)), .quiet s) := by
  have hsmall : 4 * ids.1.length < 2 ^ 31 := by
    unfold FitsReply at hfits
    omega
  have hbytes : (4 * BitVec.ofNat 32 ids.1.length).toInt = 4 * ids.1.length := by
    have hmul : (4 * BitVec.ofNat 32 ids.1.length).toNat = 4 * ids.1.length := by
      rw [BitVec.toNat_mul, toNat_length]
      exact Nat.mod_eq_of_lt (lt_trans hsmall (by decide))
    rw [BitVec.toInt_eq_toNat_of_lt (by omega), hmul]
    rfl
  have hgood : ¬ (isNegative (BitVec.ofNat 32 ids.1.length) = true ∨
      (4 * BitVec.ofNat 32 ids.1.length).toInt < 0) := by
    rw [hbytes, (Local.isNegative_length ids.2).2]
    rintro (h | h)
    · exact nomatch h
    · omega
  have hlen : (putWords ids.1).length = (4 * BitVec.ofNat 32 ids.1.length).toInt.toNat := by
    rw [hbytes, length_putWords]
    omega
  rw [javaRecvIds, List.getD_cons_zero, if_neg hgood, ← List.append_nil (putWords ids.1), converse_recv hlen]
  dsimp only
  rw [toNat_length, length_putWords, if_neg (lt_irrefl _), getWords_putWords rfl]
  rfl

/-- A positive number of events, as `et_events_new` and `et_events_new_group` let it through. -/
abbrev EventCount := { num : Word // 0 < num.toInt }

/-- **`etr_events_new` is in step** with the server. -/
def MakesEvents (num : EventCount) : Prop :=
  J.InStep bit64 (etrEventsNew (fuel + 1) esize att mode deltatime size num.1)
    (fun ids => ids.1.map (remoteEvent esize mode size))
    (fun m' ids => m'.setModifyAll etModify ids.1) m
    (J.askedEvents bit64 (fuel + 1) att mode deltatime size num.1 none m)

/-- **`etr_events_new_group` is in step** with the server. -/
def MakesGroup (num : EventCount) (group : Word) : Prop :=
  J.InStep bit64 (etrEventsNewGroup (fuel + 1) esize att mode deltatime size num.1 group)
    (fun ids => ids.1.map (remoteEvent esize mode size))
    (fun m' ids => m'.setModifyAll etModify ids.1) m
    (J.askedEvents bit64 (fuel + 1) att mode deltatime size num.1 (some group) m)

theorem isNegative_code (ex : JavaException) : isNegative ex.code.1 = true :=
  isNegative_failure ex.code

theorem makesEvents_iff (num : EventCount) :
    J.MakesEvents bit64 fuel esize att mode deltatime size m num ↔
      ¬ JavaTooBig bit64 (javaProduct num.1 size) ∧
        ∀ m' ids, J.askedEvents bit64 (fuel + 1) att mode deltatime size num.1 none m =
          some (m', .ok ids) → FitsReply ids :=
  J.inStep_events_iff bit64 fuel att size m (mode &&& etWaitMask) (netTiming mode deltatime).1
    num.1 none (recvPlaces esize mode size) _ isNegative_code
    (fun ids => (Local.isNegative_length ids.2).2)
    (fun _ s hfits => converse_recvPlaces esize mode size hfits s) (netTiming mode deltatime).2

theorem makesGroup_iff (num : EventCount) (group : Word) :
    J.MakesGroup bit64 fuel esize att mode deltatime size m num group ↔
      ¬ JavaTooBig bit64 (javaProduct num.1 size) ∧
        ∀ m' ids, J.askedEvents bit64 (fuel + 1) att mode deltatime size num.1 (some group) m =
          some (m', .ok ids) → FitsReply ids :=
  J.inStep_events_iff bit64 fuel att size m (mode &&& etWaitMask) (netTiming mode deltatime).1
    num.1 (some group) (recvPlaces esize mode size) _ isNegative_code
    (fun ids => (Local.isNegative_length ids.2).2)
    (fun _ s hfits => converse_recvPlaces esize mode size hfits s) (netTiming mode deltatime).2

/-- **`newEvents` of the Java client is in step** with the server, or returns before anything is
sent. -/
def JavaMakes (a : NewArgs) : Prop :=
  match a.early with
  | some r =>
      converse (J.javaNewLoop bit64) (javaNewEvents (fuel + 1) esize att a) (.quiet (ready m)) =
        some (r, .quiet (ready m))
  | none =>
      J.InStep bit64 (javaNewEvents (fuel + 1) esize att a)
        (fun ids => ids.1.map (newEventImpl a.noBuffer (eventSize esize a.longSize)))
        (fun m' ids => m'.setModifyAll etModify ids.1) m
        (J.askedJava bit64 (fuel + 1) att a m)

theorem javaMakes_iff (a : NewArgs) :
    J.JavaMakes bit64 fuel esize att m a ↔
      (a.early = none → ¬ JavaTooBig bit64 (javaProduct a.count a.longSize) ∧
        ∀ m' ids, J.askedJava bit64 (fuel + 1) att a m = some (m', .ok ids) → FitsReply ids) := by
  unfold JavaMakes javaNewEvents
  cases hearly : a.early with
  | some r => exact iff_of_true rfl nofun
  | none =>
      rw [forall_prop_of_true rfl]
      dsimp only
      rw [a.request_eq att]
      exact J.inStep_events_iff bit64 fuel att a.longSize m a.mode.1
        (javaTiming a.mode.1 a.microSec).1 a.count a.group
        (javaRecvIds a.noBuffer (eventSize esize a.longSize)) _ JavaException.throws
        (fun ids => Local.javaThrows_length ids.2)
        (fun _ s hfits => converse_javaRecvIds hfits a.noBuffer _ s)
        (javaTiming a.mode.1 a.microSec).2

end JavaMaker

/-! ## Events that are got -/

namespace Local

variable (L : Local τ) (size : ArraySize)

/-- **A call that gets events is in step** with the server: it has the result of the call in the
server, which is then waiting for the next request with nothing on its way. -/
def GetsInStep {β γ : Type} (r : Routine (Except Word γ)) (result : Memory τ → β → γ)
    (m : Memory τ) : Option (Memory τ × Except Failure β) → Prop
  | none => converse (L.javaLoop size) r (.quiet (some m)) = none
  | some (m', .error err) =>
      converse (L.javaLoop size) r (.quiet (some m)) = some (.error err.1, .quiet (some m'))
  | some (m', .ok b) =>
      ∃ after, converse (L.javaLoop size) r (.quiet (some m)) =
        some (.ok (result m' b), .quiet (some after))

theorem getsInStep_etrRetry_iff {β γ : Type} {request : List Byte} {n : ℕ} {failed : Word → Bool}
    (wait : Word) (call : Memory τ → Memory τ × Except Failure β)
    (finish : List Word → Routine (Except Word γ)) (pad : List Word)
    (result : Memory τ → β → γ) (Fits : Memory τ → β → Prop)
    (hfailed : ∀ m m' err, call m = (m', .error err) → failed err.1 = true)
    (herror : ∀ m m' err, call m = (m', .error err) →
      L.javaLoop size (some m) request = some ((some m', putWords (err.1 :: pad)), []))
    (hok : ∀ m m' b fuel iterations, call m = (m', .ok b) →
      ((∃ after, converse (L.javaLoop size)
          (etrRetry request n wait failed finish (fuel + 1) iterations) (.quiet (some m)) =
        some (.ok (result m' b), .quiet (some after))) ↔ Fits m' b))
    (hpad : pad.length + 1 = n) (fuel : ℕ) (iterations : ℤ) (m : Memory τ) :
    L.GetsInStep size (etrRetry request n wait failed finish fuel iterations) result m
        (askAgain wait call fuel iterations m) ↔
      ∀ m' b, askAgain wait call fuel iterations m = some (m', .ok b) → Fits m' b := by
  have h := converse_etrRetry_rel wait call finish pad
    (fun m' b r => (∃ after, r = some (.ok (result m' b), .quiet (some after))) ↔ Fits m' b)
    hfailed herror hok hpad fuel iterations m
  revert h
  generalize askAgain _ _ _ _ _ = asked
  rcases asked with _ | ⟨m', err | b⟩
  · exact fun h => iff_of_true h nofun
  · exact fun h => iff_of_true h nofun
  · refine fun h => Iff.trans h ⟨?_, fun hall => hall m' b rfl⟩
    rintro hfits m'' b' heq
    cases heq
    exact hfits

variable (big : Bool) (fuel : ℕ) (att mode num : Word) (deltatime : Option (ℤ × ℤ)) (m : Memory τ)

theorem getsEvent_inStep_iff :
    L.GetsInStep size (etrEventGet big fuel att mode deltatime)
        (fun m' place => ((m'.event place).toClient big).view place (getModify mode)) m
        (L.gotEvent fuel att mode deltatime m) ↔
      ∀ m' place, L.gotEvent fuel att mode deltatime m = some (m', .ok place) →
        (m'.event place).Gettable size := by
  refine L.getsInStep_etrRetry_iff size (n := 1) (mode &&& etWaitMask)
    (L.getEvent att mode (netTiming mode deltatime).1) _ [] _
    (fun m' place => (m'.event place).Gettable size) (fun _ _ err _ => isNotOk_failure err) ?_ ?_
    rfl fuel (netTiming mode deltatime).2 m
  · intro m m' err hcall
    have hrun := L.run_javaEventGet size att mode (netTiming mode deltatime).1 m []
    rw [List.append_nil] at hrun
    unfold getEvent at hcall
    rcases hget : L.eventGet att (netTiming mode deltatime).1 m with ⟨m₀, err' | p⟩
    · rw [hget] at hcall hrun
      cases hcall
      exact hrun
    · rw [hget] at hcall
      exact nomatch (Prod.mk.inj hcall).2
  · intro m m' place fuel iterations hcall
    rcases L.converse_javaEventGet_cases size big fuel att mode hcall iterations with
      ⟨hgood, after, hr, -⟩ | ⟨hbad, hended⟩
    · exact iff_of_true ⟨after, hr⟩ hgood
    · exact iff_of_false (fun ⟨_, h⟩ => nomatch hended _ _ h) hbad

theorem getsEvents_inStep_iff :
    L.GetsInStep size (etrEventsGet big fuel att mode num deltatime)
        (fun m' places => (m'.toClient big).views (getModify mode) places.1) m
        (L.gotEvents fuel att mode num deltatime m) ↔
      ∀ m' places, L.gotEvents fuel att mode num deltatime m = some (m', .ok places) →
        m'.Sendable places.1 size := by
  have h := L.getsInStep_etrRetry_iff size (n := 1) (mode &&& etWaitMask)
    (L.getEvents att mode num (netTiming mode deltatime).1)
    (fun incoming => .recv 8 fun
      | none => .unlock (.ret (.error etErrorRead))
      | some _ => recvEvents big (getModify mode) (incoming.getD 0 0).toNat []) []
    (fun m' places => (m'.toClient big).views (getModify mode) places.1)
    (fun m' places => m'.Sendable places.1 size) (fun _ _ err _ => isNegative_failure err)
    (fun _ _ _ hcall => L.javaLoop_eventsGet_error size att mode num hcall) ?_
    rfl fuel (netTiming mode deltatime).2 m
  · exact h
  · intro m m' ids fuel iterations hcall
    rcases L.converse_javaEventsGet_cases size big fuel att mode num (mode &&& etWaitMask)
        isNegative
        (fun incoming => .recv 8 fun
          | none => .unlock (.ret (.error etErrorRead))
          | some _ => recvEvents big (getModify mode) (incoming.getD 0 0).toNat [])
        True hcall (isNegative_length ids.2).2
        (fun hsend m₂ total htotal =>
          Or.inl ⟨converse_remoteReads size big mode hsend m₂ htotal, trivial⟩)
        iterations with ⟨hgood, after, hr, -⟩ | ⟨hbad, hno⟩
    · exact iff_of_true ⟨after, hr⟩ hgood.1
    · exact iff_of_false (fun ⟨_, h⟩ => hno _ _ h) fun h => hbad ⟨h, trivial⟩

theorem javaClientGets_inStep_iff (hL : L.LikeJava) (jmode : JavaMode) (modify : JavaModify)
    (microSec : ℤ) (count : Word) :
    L.GetsInStep size (javaGetEvents fuel att jmode.1 modify.1 microSec count)
        (fun m' places => m'.views modify.1 places.1) m
        (L.javaGot fuel att jmode modify microSec count m) ↔
      ∀ m' places, L.javaGot fuel att jmode modify microSec count m = some (m', .ok places) →
        m'.Sendable places.1 size ∧ ∀ place ∈ places.1, (m'.event place).Takeable := by
  rw [javaGetEvents, javaEventsGetRequest_eq, javaGot]
  refine L.getsInStep_etrRetry_iff size (n := 1) jmode.1
    (L.getEvents att modify.1 count (javaTiming jmode.1 microSec).1) _ [] _
    (fun m' places => m'.Sendable places.1 size ∧ ∀ place ∈ places.1, (m'.event place).Takeable)
    (fun _ _ _ hcall => L.javaThrows_getEvents att hL hcall)
    (fun _ _ _ hcall => L.javaLoop_eventsGet_error size att modify.1 count hcall) ?_
    rfl fuel (javaTiming jmode.1 microSec).2 m
  intro m m' ids fuel iterations hcall
  have hcases := L.converse_javaEventsGet_cases size true fuel att modify.1 count
    jmode.1 javaThrows
    (fun incoming => .recv 8 fun
      | none => .unlock (.ret (.error etErrorRead))
      | some _ =>
          if isNegative (incoming.getD 0 0) then .unlock (.ret (.error etError))
          else javaRecvEvents modify.1 (incoming.getD 0 0).toNat [])
    (∀ place ∈ ids.1, (m'.event place).Takeable) hcall (javaThrows_length ids.2)
    (fun hsend m₂ total htotal =>
      converse_javaReads size modify (L.javaSized_getEvents att hL hcall) hsend m₂ htotal)
    iterations
  rw [(getModify_javaModify modify).1] at hcases
  rcases hcases with ⟨hgood, after, hr, -⟩ | ⟨hbad, hno⟩
  · exact iff_of_true ⟨after, hr⟩ hgood
  · exact iff_of_false (fun h => hno _ _ h.choose_spec) hbad

end Local

/-! ## All commands -/

/-- **Exactly when a client of the Java server stays in step with it.**

Making events: a 64-bit client does not ask for more than a fifth of 2 GB, of which the server
writes the error but does not flush it; and an array for the reply can be made.

Getting events: the events can be sent, and the Java client can take them. -/
theorem javaReplies_inStep_iff (J : JavaMaker τ) (L : Local τ) (hL : L.LikeJava) (bit64 : Bool)
    (array : ArraySize) (att : Word) (m : Memory τ) :
    (∀ fuel esize mode deltatime size,
      J.MakesEvent bit64 fuel esize att mode deltatime size m ↔ ¬ JavaTooBig bit64 size) ∧
    (∀ fuel esize mode deltatime size num,
      J.MakesEvents bit64 fuel esize att mode deltatime size m num ↔
        ¬ JavaTooBig bit64 (javaProduct num.1 size) ∧
          ∀ m' ids, J.askedEvents bit64 (fuel + 1) att mode deltatime size num.1 none m =
            some (m', .ok ids) → JavaMaker.FitsReply ids) ∧
    (∀ fuel esize mode deltatime size num group,
      J.MakesGroup bit64 fuel esize att mode deltatime size m num group ↔
        ¬ JavaTooBig bit64 (javaProduct num.1 size) ∧
          ∀ m' ids, J.askedEvents bit64 (fuel + 1) att mode deltatime size num.1 (some group) m =
            some (m', .ok ids) → JavaMaker.FitsReply ids) ∧
    (∀ fuel esize a, J.JavaMakes bit64 fuel esize att m a ↔
      (a.early = none → ¬ JavaTooBig bit64 (javaProduct a.count a.longSize) ∧
        ∀ m' ids, J.askedJava bit64 (fuel + 1) att a m = some (m', .ok ids) →
          JavaMaker.FitsReply ids)) ∧
    (∀ big fuel mode deltatime,
      L.GetsInStep array (etrEventGet big fuel att mode deltatime)
          (fun m' place => ((m'.event place).toClient big).view place (getModify mode)) m
          (L.gotEvent fuel att mode deltatime m) ↔
        ∀ m' place, L.gotEvent fuel att mode deltatime m = some (m', .ok place) →
          (m'.event place).Gettable array) ∧
    (∀ big fuel mode num deltatime,
      L.GetsInStep array (etrEventsGet big fuel att mode num deltatime)
          (fun m' places => (m'.toClient big).views (getModify mode) places.1) m
          (L.gotEvents fuel att mode num deltatime m) ↔
        ∀ m' places, L.gotEvents fuel att mode num deltatime m = some (m', .ok places) →
          m'.Sendable places.1 array) ∧
    ∀ fuel (mode : JavaMode) (modify : JavaModify) microSec count,
      L.GetsInStep array (javaGetEvents fuel att mode.1 modify.1 microSec count)
          (fun m' places => m'.views modify.1 places.1) m
          (L.javaGot fuel att mode modify microSec count m) ↔
        ∀ m' places, L.javaGot fuel att mode modify microSec count m = some (m', .ok places) →
          m'.Sendable places.1 array ∧ ∀ place ∈ places.1, (m'.event place).Takeable :=
  ⟨fun fuel esize mode deltatime size => J.makesEvent_iff bit64 fuel esize att mode deltatime size m,
    fun fuel esize mode deltatime size num =>
      J.makesEvents_iff bit64 fuel esize att mode deltatime size m num,
    fun fuel esize mode deltatime size num group =>
      J.makesGroup_iff bit64 fuel esize att mode deltatime size m num group,
    fun fuel esize a => J.javaMakes_iff bit64 fuel esize att m a,
    fun big fuel mode deltatime => L.getsEvent_inStep_iff array big fuel att mode deltatime m,
    fun big fuel mode num deltatime =>
      L.getsEvents_inStep_iff array big fuel att mode num deltatime m,
    fun fuel mode modify microSec count =>
      L.javaClientGets_inStep_iff array fuel att m hL mode modify microSec count⟩

/-- A system that always has the events 3 and 4. -/
def JavaMaker.generous : JavaMaker (Word × Word) where
  newEvent _ _ _ m := (m, .ok 3)
  newEvents _ _ _ _ m := (m, .ok ⟨[3, 4], by decide⟩)
  newEventsGroup _ _ _ _ _ m := (m, .error .general)

/-- A client of 64 bits has an event of 100 bytes made. -/
theorem javaReplies_inStep_example :
    JavaMaker.generous.MakesEvent true 0 8 5 etAsync none 100 .madeNew :=
  ((javaReplies_inStep_iff JavaMaker.generous Local.noting Local.noting_likeJava true ⟨8, by decide⟩
    5 Memory.madeNew).1 0 8 etAsync none 100).mpr (by decide)

/-- It waits forever for the answer if the event is to have a gigabyte. -/
theorem big_event_not_answered :
    ¬ JavaMaker.generous.MakesEvent true 0 8 5 etAsync none 0x40000000 .madeNew := by
  rw [JavaMaker.makesEvent_iff, not_not]
  decide

end EventTransfer
