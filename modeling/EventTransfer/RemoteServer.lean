import EventTransfer.RemoteEvent

/-!
# The server's command loop

`commandLoop` is `et_command_loop` (`et_server.c`): it reads a command and what follows it,
does what is asked for in the system, and writes a reply.  What the local calls do is a
parameter, `Local`; what the loop itself does to the events, and every byte it reads and
writes, is modelled.

* `run_commandLoop_…` say what the loop does on a stream that starts with the request of a
  client's routine: which local call it makes, what it replies, and that it takes the request
  and nothing more.
* `etr_call_iff` — a station, attachment or system call made by a remote client has the
  result and the effect of the local call, and leaves nothing on the connection, exactly when
  its arguments are sent right.
-/

namespace EventTransfer

open Wire Exchange

/-! ## The system as the command loop sees it -/

/-- The events in shared memory by their places, and everything else. -/
structure Memory (τ : Type) where
  sys : τ
  event : Word → MemEvent

/-- An error code. -/
abbrev Failure := { err : Word // err.toInt < 0 }

/-- The places of events; their number is an `int`. -/
abbrev Places := { places : List Word // places.length < 2 ^ 31 }

/-- **The local calls** the command loop makes. -/
structure Local (τ : Type) where
  exec : (c : Call) → Memory τ → Memory τ × Result c
  eventGet : Word → Timing → Memory τ → Memory τ × Except Failure Word
  eventsGet : Word → Timing → Word → Memory τ → Memory τ × Except Failure Places
  eventNew : Word → Timing → BitVec 64 → Memory τ → Memory τ × Except Failure Word
  eventsNew : Word → Timing → BitVec 64 → Word → Memory τ → Memory τ × Except Failure Places
  eventsNewGroup : Word → Timing → BitVec 64 → Word → Word → Memory τ →
    Memory τ × Except Failure Places
  eventPut : Word → Word → Memory τ → Memory τ × Word
  eventsPut : Word → List Word → Memory τ → Memory τ × Word
  eventDump : Word → Word → Memory τ → Memory τ × Word
  eventsDump : Word → List Word → Memory τ → Memory τ × Word
  wakeupAttachment : Word → Memory τ → Memory τ
  wakeupAll : Word → Memory τ → Memory τ
  snapshot : Memory τ → Option (List Byte)
  histogram : Memory τ → List Word

variable {τ : Type}

namespace Memory

/-- The event at `place` is changed by `f`. -/
def update (m : Memory τ) (place : Word) (f : MemEvent → MemEvent) : Memory τ :=
  { m with event := Function.update m.event place (f (m.event place)) }

@[simp] theorem update_event (m : Memory τ) (place : Word) (f : MemEvent → MemEvent) :
    (m.update place f).event place = f (m.event place) := Function.update_self ..

theorem update_event_of_ne (m : Memory τ) {place p : Word} (f : MemEvent → MemEvent)
    (h : p ≠ place) : (m.update place f).event p = m.event p := Function.update_of_ne h ..

theorem update_update (m : Memory τ) (place : Word) (f g : MemEvent → MemEvent) :
    (m.update place f).update place g = m.update place fun e => g (f e) := by
  simp [update]

theorem update_congr {m : Memory τ} {place : Word} {f g : MemEvent → MemEvent}
    (h : f (m.event place) = g (m.event place)) : m.update place f = m.update place g := by
  unfold update
  rw [h]

/-- Keep track of how an event is to be modified. -/
def setModify (m : Memory τ) (modify : Word) (place : Word) : Memory τ :=
  m.update place fun e => { e with modify := modify }

/-- The same for several events. -/
def setModifyAll (m : Memory τ) (modify : Word) (places : List Word) : Memory τ :=
  places.foldl (fun m place => m.setModify modify place) m

end Memory

/-- What a step of the loop gives: the system, or `none` when the loop has ended, and the
bytes written. -/
abbrev Answer (τ : Type) := Option (Memory τ) × List Byte

/-- The reply is written by `etNetTcpWritev`. -/
def writev (m : Memory τ) (reply : List Byte) : Answer τ :=
  if writevFails reply.length then (none, reply) else (some m, reply)

/-! ## The commands for events -/

namespace Local

variable (L : Local τ)

/-- The events are put or dumped back when the client does not modify them. -/
def giveBack (modify att place : Word) (m : Memory τ) : Memory τ :=
  if modify &&& (etModify ||| etModifyHeader) = 0 then
    if modify &&& etDump = 0 then (L.eventPut att place m).1 else (L.eventDump att place m).1
  else m

@[inherit_doc giveBack] def giveBackAll (modify att : Word) (places : List Word)
    (m : Memory τ) : Memory τ :=
  if modify &&& (etModify ||| etModifyHeader) = 0 then
    if modify &&& etDump = 0 then (L.eventsPut att places m).1
    else (L.eventsDump att places m).1
  else m

/-- `ET_NET_EV_GET`. -/
def serveEventGet (big : Bool) (m : Memory τ) : Reader (Answer τ) := do
  let incoming ← readWords 5
  let att := incoming.getD 0 0
  let modify := incoming.getD 2 0
  match L.eventGet att ⟨incoming.getD 1 0, incoming.getD 3 0, incoming.getD 4 0⟩ m with
  | (m, .error err) => return (some m, putWords [err.1])
  | (m, .ok place) =>
      let m := m.setModify (modify &&& (etModify ||| etModifyHeader)) place
      let reply := putWords [etOk] ++ (m.event place).getBytes big place
      return writev (L.giveBack modify att place m) reply

/-- What is sent of the events that are got. -/
def eventsBytes (big : Bool) (m : Memory τ) (places : List Word) : List Byte :=
  places.flatMap fun place => (m.event place).getBytes big place

/-- The reply with events: their number, the size of the rest, and the events. -/
def eventsReply (big : Bool) (m : Memory τ) (places : List Word) : List Byte :=
  let size := BitVec.ofNat 64 (eventsBytes big m places).length
  putWords [BitVec.ofNat 32 places.length, highInt size, lowInt size] ++ eventsBytes big m places

/-- `ET_NET_EVS_GET`. -/
def serveEventsGet (big : Bool) (m : Memory τ) : Reader (Answer τ) := do
  let incoming ← readWords 6
  let att := incoming.getD 0 0
  let modify := incoming.getD 2 0
  match L.eventsGet att ⟨incoming.getD 1 0, incoming.getD 4 0, incoming.getD 5 0⟩
      (incoming.getD 3 0) m with
  | (m, .error err) => return (some m, putWords [err.1])
  | (m, .ok places) =>
      let m := m.setModifyAll (modify &&& (etModify ||| etModifyHeader)) places.1
      return writev (L.giveBackAll modify att places.1 m) (eventsReply big m places.1)

end Local

/-- The data of an event that is put are read if the whole event was to be modified, into
memory of `memsize` bytes; there is no telling what happens when they do not fit. -/
def readData (m : Memory τ) (place : Word) : Reader (Option (Memory τ)) :=
  let e := m.event place
  if e.modify = etModify then
    if e.length.toNat < 2 ^ 31 then
      if e.length ≤ e.memsize then do
        let data ← readBytes (intLen e.length)
        return some (m.update place fun e => { e with pdata := e.pdata.write data })
      else failure
    else return none
  else return some m

/-- The events that are put. -/
def readPuts (big : Bool) : ℕ → Memory τ → Reader (Option (Memory τ) × List Word)
  | 0, m => return (some m, [])
  | n + 1, m => do
      let hheader ← readWords 13
      let place := hheader.getD 0 0
      match ← readData (m.update place (·.storeHeader big hheader)) place with
      | none => return (none, [])
      | some m =>
          let (m, places) ← readPuts big n m
          return (m, place :: places)

namespace Local

variable (L : Local τ)

/-- `ET_NET_EV_PUT`. -/
def serveEventPut (big : Bool) (m : Memory τ) : Reader (Answer τ) := do
  let incoming ← readWords 14
  let att := incoming.getD 0 0
  let place := incoming.getD 1 0
  match ← readData (m.update place (·.storeHeader big (incoming.drop 1))) place with
  | none => return (none, [])
  | some m =>
      let (m, err) := L.eventPut att place m
      return (some m, putWords [err])

/-- `ET_NET_EVS_PUT`.  The number of events is an `int`. -/
def serveEventsPut (big : Bool) (m : Memory τ) : Reader (Answer τ) := do
  let incoming ← readWords 4
  match ← readPuts big (incoming.getD 1 0).toInt.toNat m with
  | (none, _) => return (none, [])
  | (some m, places) =>
      let (m, err) := L.eventsPut (incoming.getD 0 0) places m
      return (some m, putWords [err])

/-- `ET_NET_EV_NEW`. -/
def serveEventNew (m : Memory τ) : Reader (Answer τ) := do
  let incoming ← readWords 6
  match L.eventNew (incoming.getD 0 0)
      ⟨incoming.getD 1 0, incoming.getD 4 0, incoming.getD 5 0⟩
      (uint64 (incoming.getD 2 0) (incoming.getD 3 0)) m with
  | (m, .error err) => return (some m, putWords [err.1, 0, 0])
  | (m, .ok place) => return (some (m.setModify etModify place), putWords [etOk, place, 0])

/-- The reply to a request for new events. -/
def answerNew : Memory τ × Except Failure Places → Answer τ
  | (m, .error err) => (some m, putWords [err.1])
  | (m, .ok places) =>
      writev (m.setModifyAll etModify places.1)
        (putWords (BitVec.ofNat 32 places.1.length :: places.1))

/-- `ET_NET_EVS_NEW`. -/
def serveEventsNew (m : Memory τ) : Reader (Answer τ) := do
  let incoming ← readWords 7
  return answerNew <| L.eventsNew (incoming.getD 0 0)
    ⟨incoming.getD 1 0, incoming.getD 5 0, incoming.getD 6 0⟩
    (uint64 (incoming.getD 2 0) (incoming.getD 3 0)) (incoming.getD 4 0) m

/-- `ET_NET_EVS_NEW_GRP`. -/
def serveEventsNewGroup (m : Memory τ) : Reader (Answer τ) := do
  let incoming ← readWords 8
  return answerNew <| L.eventsNewGroup (incoming.getD 0 0)
    ⟨incoming.getD 1 0, incoming.getD 6 0, incoming.getD 7 0⟩
    (uint64 (incoming.getD 2 0) (incoming.getD 3 0)) (incoming.getD 4 0) (incoming.getD 5 0) m

/-- `ET_NET_EV_DUMP`. -/
def serveEventDump (m : Memory τ) : Reader (Answer τ) := do
  let incoming ← readWords 2
  let (m, err) := L.eventDump (incoming.getD 0 0) (incoming.getD 1 0) m
  return (some m, putWords [err])

/-- `ET_NET_EVS_DUMP`.  The number of events is a `uint32_t` here; it is taken for one that the server's
array of places has room for. -/
def serveEventsDump (m : Memory τ) : Reader (Answer τ) := do
  let incoming ← readWords 2
  let places ← readWords (incoming.getD 1 0).toNat
  let (m, err) := L.eventsDump (incoming.getD 0 0) places m
  return (some m, putWords [err])

/-! ## The loop -/

/-- A station, attachment or system call. -/
def serveCall (c : CallCommand) (m : Memory τ) : Reader (Answer τ) := do
  let call ← c.read
  let (m, r) := L.exec call m
  return (some m, call.reply r)

/-- `ET_NET_SYS_DATA`. -/
def answerSnapshot (m : Memory τ) : Answer τ :=
  match L.snapshot m with
  | none => (some m, putWords [etError])
  | some data => writev m (putWords [etOk, BitVec.ofNat 32 data.length] ++ data)

/-- `ET_NET_SYS_HIST`.  The number of bytes is an `int` for the writing and a `size_t` for the
test whether all was written. -/
def answerHistogram (m : Memory τ) : Answer τ :=
  let reply := putWords (etOk :: L.histogram m)
  if reply.length < 2 ^ 31 then (some m, reply)
  else (none, reply.take (intLen (BitVec.ofNat 64 reply.length)))

/-- What the loop does for a command. -/
def serveCommand (big : Bool) (m : Memory τ) : Command → Reader (Answer τ)
  | .evGet => L.serveEventGet big m
  | .evsGet => L.serveEventsGet big m
  | .evPut => L.serveEventPut big m
  | .evsPut => L.serveEventsPut big m
  | .evNew => L.serveEventNew m
  | .evsNew => L.serveEventsNew m
  | .evDump => L.serveEventDump m
  | .evsDump => L.serveEventsDump m
  | .evsNewGrp => L.serveEventsNewGroup m
  | .alive => return (some m, putWords [1])
  | .wait => return (some m, putWords [etOk])
  | .close => return (none, [])
  | .fclose => return (none, [])
  | .wakeAtt => return (some (L.wakeupAttachment (← readWord) m), [])
  | .wakeAll => return (some (L.wakeupAll (← readWord) m), [])
  | .kill => return (none, [])
  | .call c => L.serveCall c m
  | .sysData => return L.answerSnapshot m
  | .sysHist => return L.answerHistogram m

/-- **The command loop**, one round.  A number that is no command is passed over if it is below
`ET_NET_STAT_GATTS`, and ends the loop otherwise. -/
def commandLoop (big : Bool) : Server (Option (Memory τ)) :=
  fun m => show Reader (Answer τ) from
    match m with
    | none => failure
    | some m => do
        let command ← readWord
        match Command.ofCode command with
        | some c => L.serveCommand big m c
        | none =>
            if command.toNat ∈ Command.leftOut then failure
            else if command.toInt < StationGet.gatts.number then return (some m, [])
            else return (none, [])

end Local

/-! ## Calls -/

section

variable (L : Local τ) (big : Bool) (m : Memory τ)

/-- The loop goes by the command that is first on the stream. -/
theorem run_commandLoop (c : Command) (args : List Byte) :
    L.commandLoop big (some m) (htonl c.code ++ args) = (L.serveCommand big m c).run args := by
  refine run_bind_of (run_readWord _ _) ?_
  rw [Command.ofCode_code]

/-- **A call is made as it was asked for**, and nothing of what follows is read. -/
theorem run_commandLoop_call {junk : Word} {c : Call} (h : c.wellSent junk) (rest : List Byte) :
    L.commandLoop big (some m) (c.request junk ++ rest) =
      some ((some (L.exec c m).1, c.reply (L.exec c m).2), rest) := by
  rw [Call.request, List.append_assoc, run_commandLoop]
  exact run_bind_of (Call.run_read h rest) rfl

end

/-- **A remote call does what the local call does**, for every server: the client gets the
result, the system the effect, and nothing is left on the connection. -/
def Call.Faithful (junk : Word) (c : Call) : Prop :=
  ∀ (τ : Type) (L : Local τ) (big : Bool) (m : Memory τ),
    converse (L.commandLoop big) (etr junk c) (.quiet (some m)) =
      some ((L.exec c m).2.seen, .quiet (some (L.exec c m).1))

theorem Call.faithful_of_wellSent {junk : Word} {c : Call} (h : c.wellSent junk) :
    c.Faithful junk := by
  intro τ L big m
  apply converse_etr
  simpa using run_commandLoop_call L big m h []

/-! ### What goes wrong -/

instance {n : ℕ} [NeZero n] : Inhabited (Str n) := ⟨.empty, Nat.pos_of_neZero n⟩

instance (n : StationName) : NeZero n.size := ⟨by cases n <;> decide⟩

instance (c : Call) : Inhabited c.Out :=
  match c with
  | .stationGet .. | .systemGet _ | .createAt .. | .attach .. | .existing _ =>
      inferInstanceAs (Inhabited Word)
  | .attachGet .. => inferInstanceAs (Inhabited (BitVec 64))
  | .stationName n _ => inferInstanceAs (Inhabited (Str n.size))
  | .getposition _ => inferInstanceAs (Inhabited (Word × Word))
  | .getselectwords _ => inferInstanceAs (Inhabited SelectWords)
  | .stationSet .. | .remove _ | .detach _ | .setposition .. | .isattached .. |
    .setselectwords .. => inferInstanceAs (Inhabited Unit)

/-- An event with nothing in it. -/
def MemEvent.blank : MemEvent where
  length := 0
  memsize := 0
  priority := 0
  datastatus := 0
  byteorder := 0
  control := default
  modify := 0
  pdata := .empty

/-- `ET_ERROR_EMPTY` as an error code. -/
def failureEmpty : Failure := ⟨-6, by decide⟩

/-- A system that notes the position a station is given, and does nothing else. -/
def Local.noting : Local (Word × Word) where
  exec c m :=
    match c with
    | .setposition _ position pposition => ({ m with sys := (position, pposition) }, ⟨etOk, ()⟩)
    | _ => (m, ⟨etOk, default⟩)
  eventGet _ _ m := (m, .error failureEmpty)
  eventsGet _ _ _ m := (m, .error failureEmpty)
  eventNew _ _ _ m := (m, .error failureEmpty)
  eventsNew _ _ _ _ m := (m, .error failureEmpty)
  eventsNewGroup _ _ _ _ _ m := (m, .error failureEmpty)
  eventPut _ _ m := (m, etOk)
  eventsPut _ _ m := (m, etOk)
  eventDump _ _ m := (m, etOk)
  eventsDump _ _ m := (m, etOk)
  wakeupAttachment _ m := m
  wakeupAll _ m := m
  snapshot _ := none
  histogram _ := []

/-- Its state before anything is done. -/
def Memory.unnoted : Memory (Word × Word) := ⟨(0, 0), fun _ => .blank⟩

/-- What `etr_station_setposition` sends: the parallel position as the position, and whatever
the third integer is as the parallel position. -/
theorem run_commandLoop_setposition (L : Local τ) (big : Bool) (m : Memory τ)
    (junk stat position pposition : Word) (rest : List Byte) :
    L.commandLoop big (some m) ((Call.setposition stat position pposition).request junk ++ rest) =
      some ((some (L.exec (.setposition stat pposition junk) m).1,
        putWords [(L.exec (.setposition stat pposition junk) m).2.err]), rest) := by
  rw [Call.request, List.append_assoc, run_commandLoop]
  refine run_bind_of ?_ rfl
  exact run_bind_of (run_readWords (by rfl) _) rfl

/-- A name that does not fit is not received. -/
theorem run_readStr_long {n : ℕ} {name : CStr} (h : n ≤ name.bytes.length) :
    (readStr n name.size.toNat).run (name.put.take name.size.toNat) = none := by
  by_cases hle : name.size.toNat ≤ n
  · have htake : name.put.take name.size.toNat = name.bytes.take name.size.toNat :=
      List.take_append_of_le_length (hle.trans h)
    have hlen : (name.put.take name.size.toNat).length = name.size.toNat := by
      rw [htake, List.length_take]
      omega
    have hzero : 0#8 ∉ name.put.take name.size.toNat := by
      rw [htake]
      exact fun hmem => name.nulFree (List.mem_of_mem_take hmem)
    have hread := run_readBytes hlen []
    rw [List.append_nil] at hread
    rw [readStr, if_pos hle, StateT.run_bind, hread]
    simp [hzero]
  · rw [readStr, if_neg hle]
    rfl

/-- The server gets stuck on a name that does not fit. -/
theorem run_commandLoop_existing_long (L : Local τ) (big : Bool) (m : Memory τ) (junk : Word)
    {name : CStr} (h : etStatnameLength ≤ name.bytes.length) :
    L.commandLoop big (some m) ((Call.existing name).request junk) = none := by
  have hargs : (Call.existing name).args junk =
      htonl name.size ++ name.put.take name.size.toNat := by
    simp [Call.args]
  rw [Call.request, run_commandLoop, hargs]
  show (do let c ← CallCommand.statEx.read; _ : Reader (Answer τ)).run _ = none
  rw [StateT.run_bind]
  have hread : CallCommand.statEx.read.run (htonl name.size ++ name.put.take name.size.toNat) =
      none := by
    refine run_bind_of (run_readWord _ _) ?_
    rw [StateT.run_bind, run_readStr_long h]
    rfl
  rw [hread]
  rfl

/-- **Exactly when remote calls are right**: all are, except a change of position unless both
positions are what the unset integer happens to be, and a search for a name that is longer
than any station's. -/
theorem etr_faithful_iff (junk : Word) (c : Call) : c.Faithful junk ↔ c.wellSent junk := by
  constructor
  · intro h
    cases c with
    | setposition stat position pposition =>
        have hnoted := h _ Local.noting false .unnoted
        have hserve := run_commandLoop_setposition Local.noting false .unnoted junk stat position
          pposition []
        rw [List.append_nil] at hserve
        rw [etr, etrStationSetposition, etrStatus] at hnoted
        have hsame := (converse_etrWords hserve rfl).symm.trans hnoted
        have hsys := congrArg (fun r => r.map fun p => p.2.server.map (·.sys)) hsame
        obtain ⟨hposition, hjunk⟩ : position = pposition ∧ junk = pposition := by
          simpa [Local.noting, Conn.quiet, Prod.ext_iff, eq_comm] using hsys
        exact ⟨hposition, hjunk.symm⟩
    | existing name =>
        by_contra hlong
        have hnoted := h _ Local.noting false .unnoted
        have hserve := run_commandLoop_existing_long Local.noting false .unnoted 0
          (not_lt.mp hlong)
        have hstuck := (converse_exchange_of_stuck hserve (by decide)).symm.trans hnoted
        cases hstuck
    | _ => trivial
  · exact Call.faithful_of_wellSent

/-- A station that is to be moved to position 3, in front of all parallel stations there, is
moved to position 0. -/
theorem setposition_not_faithful : ¬ (Call.setposition 2 3 0).Faithful 0 := by
  intro h
  have hlocal := h _ Local.noting false .unnoted
  have hremote : (converse (Local.noting.commandLoop false) (etr 0 (.setposition 2 3 0))
      (.quiet (some .unnoted))).map (fun r => r.2.server.map (·.sys)) = some (some (0, 0)) := by
    rfl
  rw [hlocal] at hremote
  exact absurd hremote (by decide)

end EventTransfer
