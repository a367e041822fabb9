import EventTransfer.EventMoves
import EventTransfer.StationPosition
import EventTransfer.Lib.Chunks

/-!
# An ET system as a FIFO

`et_start_fifo` starts an ET system with one station, "Users", beside GRAND_CENTRAL.  Its events are
the buffers of a number of FIFO entries, each of the same `capacity`; a producer takes an entry of
empty buffers from GRAND_CENTRAL and puts it, and a consumer gets it from "Users" and puts it again.

An entry is not an object of the system: it is an array of events in the memory of the process that
has it in hand (`FifoEntry`).  The calls are `et_events_new`, `et_events_get` and `et_events_put`
for `capacity` events, so a call that has got fewer ends with `ET_ERROR`.

A null pointer for a FIFO or an entry, and a lack of memory, are not modelled; nor is
`et_fifo_allHaveData`, which reads control words only.
-/

namespace EventTransfer

open Places

/-! ## The program that starts it -/

/-- The options of `et_start_fifo`: the number of entries, of buffers in an entry and of bytes in a
buffer, and whether the FIFO is blocking. -/
structure FifoOptions where
  entries : ℕ
  entryCount : ℕ
  eventSize : ℕ
  blocking : Bool
  deriving DecidableEq, Repr

namespace FifoOptions

variable (o : FifoOptions)

/-- The options that the program goes on with. -/
def Accepted : Prop := 9 < o.entries ∧ o.entries < 5001 ∧ 0 < o.entryCount ∧ 0 < o.eventSize

instance : Decidable o.Accepted := inferInstanceAs (Decidable (_ ∧ _ ∧ _ ∧ _))

/-- `nevents`, an `int`: the program does not look whether the product is below `2 ^ 31`, and it is taken
for one that is. -/
def nevents : ℕ := o.entries * o.entryCount

/-- "Cue contains 95% of entries => 5% free with minimum of 2". -/
def freeEntries : ℕ := if o.entries / 20 < 2 then 2 else o.entries / 20

/-- The configuration of the station "Users".  `et_station_config_setcue` does not take a value
below `1`.  The products are `int`s too, and no greater than `nevents`. -/
def usersConfig : StatConfig :=
  if o.blocking then .default
  else
    let val : ℤ := o.nevents - o.freeEntries * o.entryCount
    let sc := { StatConfig.default with blockMode := .nonblocking }
    if val < 1 then sc else { sc with cue := val }

/-- The configuration of the system. -/
structure Configures (cfg : EventConfig) : Prop where
  nevents : cfg.nevents = o.nevents
  eventSize : cfg.eventSize = o.eventSize
  groupCount : cfg.groupCount = o.entries

/-- **The system that `et_start_fifo` has started.** -/
structure Started (cfg : EventConfig) (s : EventSystem) : Prop where
  fresh : s.Fresh cfg
  low : ∀ e, (s.hdr e).priority = .low
  chain : ChainOk s.stations [(0, []), (1, [])]
  users : s.stations.config 1 = o.usersConfig
  exists_users : stationExists cfg.toSysConfig s.stations "Users" = some 1

end FifoOptions

/-! ## Opening -/

/-- `et_fifo_ctx`.  `idCount` is the length of `bufIds`. -/
structure FifoCtx where
  evSize : ℕ
  evCount : ℕ
  entries : ℕ
  userEntries : ℤ
  producer : Bool
  capacity : ℕ
  userStatId : ℕ
  attId : ℕ
  bufIds : List ℤ
  deriving DecidableEq, Repr

/-- An entry in the hands of a process. -/
structure FifoEntry where
  bufs : List ℕ
  fid : FifoCtx
  deriving DecidableEq, Repr

/-- How `et_fifo_open` fails. -/
inductive FifoError
  | badarg
  | code (r : Ret)
  deriving DecidableEq, Repr

/-- **`et_fifo_open`.**  The attachment stays when there turn out to be more than two stations. -/
def etFifoOpen (cfg : EventConfig) (s : EventSystem) (isProducer : Bool) (bufIds : List ℤ) :
    Except FifoError FifoCtx × EventSystem :=
  if cfg.nevents % cfg.groupCount ≠ 0 then (.error (.code .error), s)
  else
    let capacity := cfg.nevents / cfg.groupCount
    if isProducer ∧ bufIds = [] then (.error .badarg, s)
    else if isProducer ∧ capacity < bufIds.length then (.error (.code .errorToomany), s)
    else
      match stationExists cfg.toSysConfig s.stations "Users" with
      | none => (.error (.code .error), s)
      | some statId =>
          let attId := ((List.range cfg.nattachments).find? fun i => !(s.attach i).active).getD 0
          let r := s.etStationAttach cfg (if isProducer then 0 else statId)
          if r.1 ≠ .ok then (.error (.code r.1), r.2)
          else if 2 < s.stations.nstations then (.error (.code .errorToomany), r.2)
          else
            (.ok {
              evSize := cfg.eventSize
              evCount := cfg.nevents
              entries := cfg.groupCount
              userEntries := (s.stations.config statId).cue
              producer := isProducer
              capacity := capacity
              userStatId := statId
              attId := attId
              bufIds := if isProducer then bufIds else [] }, r.2)

/-! ## Entries -/

/-- How a call waits: for as long as it takes, or, in the calls with a time, for that time; and what
ends its read before it takes an event, if anything does. -/
structure FifoWait where
  deltatime : Option (Option TimeSpec)
  interrupt : Option NoEvent

/-- The arguments of the read. -/
def FifoCtx.readArgs (fid : FifoCtx) (wait : FifoWait) : ReadArgs :=
  ⟨fid.attId, true, some (if wait.deltatime.isSome then .timed else .sleep), wait.deltatime.join, [],
    wait.interrupt⟩

namespace EventSystem

variable (s : EventSystem)

/-- `control[0]` of an event. -/
def control0 (e : ℕ) : ℤ := (s.hdr e).control.getD 0 0

def setControl0 (e : ℕ) (id : ℤ) : EventSystem :=
  s.setHdr e { s.hdr e with control := (s.hdr e).control.set 0 id }

/-- The buffers of a new entry get their ids, and `-1` when there are no more; their lengths
become `0`. -/
def labelBufs : List ℤ → List ℕ → EventSystem → EventSystem
  | _, [], s => s
  | [], e :: bufs, s =>
      labelBufs [] bufs (s.setHdr e { s.hdr e with
        control := (s.hdr e).control.set 0 (-1), length := 0 })
  | id :: ids, e :: bufs, s =>
      labelBufs ids bufs (s.setHdr e { s.hdr e with
        control := (s.hdr e).control.set 0 id, length := 0 })

/-- **`et_fifo_newEntry` and `et_fifo_newEntryTO`.** -/
def etFifoNewEntry (cfg : EventConfig) (os : OsAnswers) (fid : FifoCtx) (wait : FifoWait) :
    Ret × List ℕ × EventSystem :=
  if fid.producer = false then (.error, [], s)
  else
    let a := fid.readArgs wait
    let r := s.etEventsNew cfg os a fid.evSize fid.capacity
    let bufs := s.taken a (.nread (numAvailable cfg fid.evSize fid.capacity)) 0
    if r.1 ≠ .ok then (r.1, [], r.2)
    else if bufs.length ≠ fid.capacity then (.error, bufs, r.2)
    else (.ok, bufs, r.2.labelBufs fid.bufIds bufs)

/-- **`et_fifo_getEntry` and `et_fifo_getEntryTO`.** -/
def etFifoGetEntry (os : OsAnswers) (fid : FifoCtx) (wait : FifoWait) : Ret × List ℕ × EventSystem :=
  if fid.producer then (.error, [], s)
  else
    let a := fid.readArgs wait
    let r := s.etEventsGet os a fid.capacity
    let bufs := s.taken a (.nread fid.capacity) (s.statOf a.att)
    if r.1 ≠ .ok then (r.1, [], r.2)
    else if bufs.length ≠ fid.capacity then (.error, bufs, r.2)
    else (.ok, bufs, r.2)

/-- **`et_fifo_putEntry`.** -/
def etFifoPutEntry (cfg : EventConfig) (os : OsAnswers) (entry : FifoEntry) : Ret × EventSystem :=
  s.etEventsPut cfg os entry.fid.attId (some entry.bufs)

/-- **`et_fifo_getBuf`**: the buffer of the entry that has the id, or the first one without an id,
which gets it. -/
def etFifoGetBuf (id : ℤ) : List ℕ → Option ℕ × EventSystem
  | [] => (none, s)
  | e :: bufs =>
      if s.control0 e = id then (some e, s)
      else if s.control0 e = -1 then (some e, s.setControl0 e id)
      else etFifoGetBuf id bufs

/-- `et_fifo_getFillLevel`: the number of events in the input list of "Users". -/
def etFifoGetFillLevel (fid : FifoCtx) : ℕ := (s.list (.input fid.userStatId)).length

end EventSystem

end EventTransfer
