import EventTransfer.JavaPass
import EventTransfer.JavaEventList

/-!
# Event commands in the Java server

Each client has a thread in the server that handles its commands one after another.  Events are
named by their ids, which are indices into the array of all events.  A command that takes events
takes them from a list, in the list's monitor, and then sets their owner to the attachment that
it is for.  A command that returns events sets their owner to the system, and then puts them
into a list; nobody asks whether the attachment owns them.

A thread goes from one list operation to the next in single steps here, and so do the
conductors, which take the events of an output list (`collect`) and distribute them (`conduct`).
A command that is answered with an error, or that has to wait, leaves everything as it is.  An
exception that nobody catches ends the thread of the client and leaves its attachments in place;
`attachments.get` returns `null` for an attachment that the client did not make, which leads to
such an exception, sooner or later.  An id that is no index of the array stands for all ids
that are not.

Attachments stay as they are, as the commands that make and remove them are not modelled.  So
does what the answers contain (`EventTransfer.JavaEvents`), and of the fields of an event those
that no list and no conductor looks at.
-/

namespace EventTransfer

open StepRun Tally WaterFill

/-- What a message says of an event that is put. -/
structure EvPut where
  id : ℕ
  length : ℕ
  priority : Priority
  dataStatus : DataStatus
  control : List ℤ
  deriving DecidableEq, Repr

/-- **The commands.**  Those for a single event are the ones for several with one event.  In
`evsGet` the last argument says that the events are to be modified; the others go back at
once.  `async` is the mode of a command that does not wait, and does not look at its attachment
before it has events. -/
inductive JavaCommand
  | evsGet (attId quantity : ℕ) (modify : Bool)
  | evsNew (attId quantity : ℕ) (async : Bool)
  | evsNewGrp (attId quantity group : ℕ) (async : Bool)
  | evsPut (attId : ℕ) (events : List EvPut)
  | evsDump (attId : ℕ) (ids : List ℕ)
  deriving DecidableEq, Repr

/-- What a thread carries from one list to the next: events it `got`, of which `new` ones are
initialised; events that were sent to the client to be read, and go back (`answered`); events
that it is about to `put` or to `dump`. -/
inductive JavaThread
  | idle
  | got (attId : ℕ) (evs : List ℕ) (new : Bool) (modify : Bool)
  | answered (attId : ℕ) (evs : List ℕ)
  | put (attId : ℕ) (evs : List ℕ)
  | dump (attId : ℕ) (evs : List ℕ)
  | dead
  deriving DecidableEq, Repr

/-- All stations: GRAND_CENTRAL and those behind it. -/
def JavaChain.ids (chain : JavaChain) : Finset ℕ :=
  insert 0 (chain.slots.flatMap JavaSlot.members).toFinset

/-- **A Java ET system with its clients.**  `client` is the client that made an attachment and
`station` the station that it is to.  `select` is the method by which a station selects events,
which looks at their headers. -/
structure JavaSetup (ι : Type) where
  chain : JavaChain
  stationsMax : ℕ
  numEvents : ℕ
  client : ℕ → Option ι
  station : ℕ → ℕ
  select : (ℕ → EventHeader) → ℕ → ℕ → Bool
  station_mem : ∀ attId, station attId ∈ chain.ids

/-- **The state.**  `getList` is the batch of a station's conductor, and `none` after an
exception. -/
structure JavaServer (ι : Type) where
  hdr : ℕ → EventHeader
  owner : ℕ → Option ℕ
  stat : ℕ → JavaStation
  output : ℕ → List ℕ
  lastHigh : ℕ → ℕ
  getList : ℕ → Option (List ℕ)
  thread : ι → JavaThread

/-- What `get` takes from a list and what it leaves, unless it waits. -/
def JavaGet.take (hdr : ℕ → EventHeader) (events : List ℕ) : JavaGet → Option (List ℕ × List ℕ)
  | get quantity =>
      if events.length < 1 then none
      else some (events.take (min quantity events.length), events.drop (min quantity events.length))
  | getGroup quantity group =>
      if events.length < 1 then none
      else
        let out := takeWhere (wants hdr (some group)) (max 1 (min quantity events.length)) events
        if out.1 = [] then none else some out

/-- `init`, of a new event. -/
def EventHeader.newEvent (h : EventHeader) : EventHeader :=
  { EventHeader.init with group := h.group, memsize := h.memsize }

/-- The header of an event that is put. -/
def EventHeader.setFrom (h : EventHeader) (ev : EvPut) : EventHeader :=
  { h with
    length := ev.length
    priority := ev.priority
    datastatus := ev.dataStatus
    control := ev.control }

/-- The message of a put is read event by event; `false` says that an id was no index. -/
def readEvents (numEvents : ℕ) : List EvPut → (ℕ → EventHeader) → (ℕ → EventHeader) × Bool
  | [], hdr => (hdr, true)
  | ev :: rest, hdr =>
      if ev.id < numEvents then
        readEvents numEvents rest (Function.update hdr ev.id ((hdr ev.id).setFrom ev))
      else (hdr, false)

/-- `setOwner`, for all of the given events. -/
def setOwner (owner : ℕ → Option ℕ) (evs : List ℕ) (o : Option ℕ) : ℕ → Option ℕ :=
  fun e => if e ∈ evs then o else owner e

/-- `setAge(Age.USED)`, and `init`, for all of the given events. -/
def updateAll (hdr : ℕ → EventHeader) (evs : List ℕ) (f : EventHeader → EventHeader) :
    ℕ → EventHeader :=
  fun e => if e ∈ evs then f (hdr e) else hdr e

namespace JavaServer

variable {ι : Type} [DecidableEq ι] (setup : JavaSetup ι) (s : JavaServer ι)

def setThread (i : ι) (t : JavaThread) : JavaServer ι :=
  { s with thread := Function.update s.thread i t }

/-- The input list of a station. -/
def setInput (stat : ℕ) (events : List ℕ) : JavaServer ι :=
  { s with stat := Function.update s.stat stat { s.stat stat with input := events } }

/-- Events are taken from the input list of a station. -/
def takeFrom (i : ι) (stat : ℕ) (call : JavaGet) (after : List ℕ → JavaThread) : JavaServer ι :=
  match call.take s.hdr (s.stat stat).input with
  | none => s
  | some (evs, rest) => (s.setInput stat rest).setThread i (after evs)

/-- New events, from the input list of GRAND_CENTRAL. -/
def takeNew (i : ι) (attId : ℕ) (call : JavaGet) (async : Bool) : JavaServer ι :=
  if setup.client attId = some i then s.takeFrom i 0 call fun evs => .got attId evs true true
  else if async then s.takeFrom i 0 call fun _ => .dead
  else s.setThread i .dead

/-- The events are the system's from now on. -/
def release (evs : List ℕ) : JavaServer ι := { s with owner := setOwner s.owner evs none }

/-- `putEvents`, up to the list. -/
def beginPut (i : ι) (attId : ℕ) (evs : List ℕ) : JavaServer ι :=
  if evs = [] then s.setThread i .idle
  else
    let s' := { s.release evs with hdr := updateAll s.hdr evs fun h => { h with age := .used } }
    if setup.client attId = some i then s'.setThread i (.put attId evs) else s'.setThread i .dead

/-- **A command comes in.** -/
def command (i : ι) : JavaCommand → JavaServer ι
  | .evsGet attId quantity modify =>
      if setup.client attId = some i then
        s.takeFrom i (setup.station attId) (.get quantity) fun evs => .got attId evs false modify
      else s.setThread i .dead
  | .evsNew attId quantity async => s.takeNew setup i attId (.get quantity) async
  | .evsNewGrp attId quantity group async =>
      -- `get` with a group throws `EtEmptyException` in the mode `async` before it looks at the list
      if async then s else s.takeNew setup i attId (.getGroup quantity group) false
  | .evsPut attId events =>
      let r := readEvents setup.numEvents events s.hdr
      if r.2 then { s with hdr := r.1 }.beginPut setup i attId (events.map EvPut.id)
      else { s with hdr := r.1 }.setThread i .dead
  | .evsDump attId ids =>
      if ∀ id ∈ ids, id < setup.numEvents then
        if ids = [] then s else (s.release ids).setThread i (.dump attId ids)
      else s.setThread i .dead

/-- **The thread goes on.** -/
def proceed (i : ι) : JavaServer ι :=
  match s.thread i with
  | .idle | .dead => s
  | .got attId evs new modify =>
      let s' := { s with
        owner := setOwner s.owner evs (some attId)
        hdr := if new then updateAll s.hdr evs EventHeader.newEvent else s.hdr }
      s'.setThread i (if modify then .idle else .answered attId evs)
  | .answered attId evs => s.beginPut setup i attId evs
  | .put attId evs =>
      let stat := setup.station attId
      let r := putLoop s.hdr (if s.output stat = [] then 0 else s.lastHigh stat) (s.output stat) evs
      { s with
        output := Function.update s.output stat r.2.1
        lastHigh := Function.update s.lastHigh stat r.1 }.setThread i
          (if r.2.2 then .idle else .dead)
  | .dump attId evs =>
      (s.setInput 0 ((s.stat 0).input ++ evs)).setThread i
        (if setup.client attId = some i then .idle else .dead)

/-- A conductor takes all events of the output list. -/
def collect (self : ℕ) : JavaServer ι :=
  match s.getList self with
  | some [] =>
      { s with
        getList := Function.update s.getList self (some (s.output self))
        output := Function.update s.output self [] }
  | _ => s

/-- A conductor distributes what it has taken. -/
def conduct (self : ℕ) : JavaServer ι :=
  match s.getList self with
  | none => s
  | some getList =>
      match setup.chain.run s.hdr (setup.select s.hdr) setup.stationsMax self s.stat getList with
      | none => { s with getList := Function.update s.getList self none }
      | some stat => { s with stat := stat, getList := Function.update s.getList self (some []) }

end JavaServer

/-- The steps. -/
inductive JavaServerAct (ι : Type)
  | command (i : ι) (c : JavaCommand)
  | proceed (i : ι)
  | collect (self : ℕ)
  | conduct (self : ℕ)
  deriving DecidableEq, Repr

/-- One step: a command comes in when the thread waits for one, and conductors are those of the
stations. -/
def JavaServer.step {ι : Type} [DecidableEq ι] (setup : JavaSetup ι) (s : JavaServer ι) :
    JavaServerAct ι → Option (JavaServer ι)
  | .command i c => if s.thread i = .idle then some (s.command setup i c) else none
  | .proceed i => some (s.proceed setup i)
  | .collect self => if self ∈ setup.chain.ids then some (s.collect self) else none
  | .conduct self => if self ∈ setup.chain.ids then some (s.conduct setup self) else none

/-- A new system: all events are in the input list of GRAND_CENTRAL. -/
structure JavaServer.Start {ι : Type} (setup : JavaSetup ι) (s : JavaServer ι) : Prop where
  grandCentral : (s.stat 0).input = List.range setup.numEvents
  input : ∀ stat, stat ≠ 0 → (s.stat stat).input = []
  output : ∀ stat, s.output stat = []
  getList : ∀ stat, s.getList stat = some []
  owner : ∀ e, s.owner e = none
  thread : ∀ i, s.thread i = .idle

/-- **Any order of the steps of any number of clients, and of the conductors.** -/
def javaServer {ι : Type} [DecidableEq ι] (setup : JavaSetup ι) :
    Machine (JavaServer ι) (JavaServerAct ι) :=
  .ofStep (JavaServer.Start setup) fun s a => s.step setup a

/-! ## Where an event is -/

/-- How often a thread carries an event to a list, or from one. -/
def JavaThread.carries (e : ℕ) : JavaThread → ℕ
  | got _ evs _ _ | put _ evs | dump _ evs => evs.count e
  | _ => 0

namespace JavaServer

variable {ι : Type} [Fintype ι] (setup : JavaSetup ι) (s : JavaServer ι)

/-- How often the event is in a station's lists. -/
def listed (e : ℕ) : ℕ :=
  ∑ stat ∈ setup.chain.ids, ((s.stat stat).input.count e + (s.output stat).count e)

/-- How often conductors have it. -/
def conducted (e : ℕ) : ℕ :=
  ∑ stat ∈ setup.chain.ids, ((s.getList stat).getD []).count e

def carried (e : ℕ) : ℕ := tally (JavaThread.carries e) s.thread

/-- Whether an attachment holds it. -/
def held (e : ℕ) : ℕ := if (s.owner e).isSome then 1 else 0

/-- **Each event is in one place**: in a station's list once, or on its way from one list to
another with one conductor or one thread, or held by one attachment. -/
def EachInOnePlace : Prop :=
  ∀ e < setup.numEvents, s.listed setup e + s.conducted setup e + s.carried e + s.held e = 1

end JavaServer

/-- The events that a client names are held by the attachment it names, and by its own. -/
def JavaServer.Names {ι : Type} (setup : JavaSetup ι) (s : JavaServer ι) (i : ι) (attId : ℕ)
    (evs : List ℕ) : Prop :=
  evs.Nodup ∧ ∀ e ∈ evs, s.owner e = some attId ∧ setup.client attId = some i

/-- **The condition on a step.**  A client puts and dumps events that its attachment holds, each
once.  For an attachment that it does not have it does not get new events.  The equal-cue groups
that a conductor comes to with events left have what the algorithm relies on. -/
def JavaServerAct.Sound {ι : Type} [DecidableEq ι] (setup : JavaSetup ι) (s : JavaServer ι) :
    JavaServerAct ι → Prop
  | command i (.evsPut attId events) => s.Names setup i attId (events.map EvPut.id)
  | command i (.evsDump attId ids) => s.Names setup i attId ids
  | command i (.evsNew attId quantity async) =>
      setup.client attId = some i ∨ async = false ∨
        ∀ r, (JavaGet.get quantity).take s.hdr (s.stat 0).input = some r → r.1 = []
  | conduct self =>
      ∀ slots, setup.chain.following self = some slots → ∀ getList, s.getList self = some getList →
        Comes s.hdr (setup.select s.hdr) setup.stationsMax
          (fun slot stat getList => slot.Fits setup.stationsMax stat getList) slots s.stat getList
  | _ => True

end EventTransfer
