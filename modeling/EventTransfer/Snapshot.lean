import EventTransfer.RemoteCall
import EventTransfer.StationGroups

/-!
# Monitoring snapshots

A monitor asks the server for the state of the whole system.  `etDataSys`, `etDataStats`,
`etDataAtts` and `etDataProcs` (`et_data.c`) each write a part of it into a buffer of their
own; `etDataGet` is the other end, which takes the four parts from one stream.

* The four writers allocate the buffer before they know how much they write.  There is no
  telling what happens when it is too small: the model has no bytes then (`malloced`).
* The stations are written in a walk along the links of the chain, `writeStats`.
* The readers find the fields by their index, which depends on how many attachments come
  before them.

Getting memory succeeds, and the system does not change while it is written.
-/

namespace EventTransfer

open Wire

/-- `ET_ATTACHMENTS_MAX`. -/
def etAttachmentsMax : ℕ := 100

/-- `ET_MAXADDRESSES`. -/
def etMaxaddresses : ℕ := 10

/-! ## The state of the system -/

/-- **The attachments of a station or a process**: `att[i]` is `i` or -1. -/
structure AttTable where
  entry : Fin etAttachmentsMax → Word
  index : ∀ i, entry i = -1 ∨ entry i = BitVec.ofNat 32 i

/-- The ids of the attachments. -/
def AttTable.used (t : AttTable) : List (Fin etAttachmentsMax) :=
  (List.finRange etAttachmentsMax).filter fun i => 0 ≤ (t.entry i).toInt

/-- Addresses of network interfaces; there is room for `ET_MAXADDRESSES`. -/
abbrev Addresses := { addrs : List (Str etIpaddrstrlen) // addrs.length ≤ etMaxaddresses }

/-- What a snapshot has of a station. -/
structure StatState where
  num : Word
  status : Word
  mutex : Word
  att : AttTable
  inMutex : Word
  inCnt : Word
  eventsTry : BitVec 64
  eventsIn : BitVec 64
  outMutex : Word
  outCnt : Word
  eventsOut : BitVec 64
  flowMode : FlowMode
  userMode : Word
  restoreMode : Word
  blockMode : Word
  prescale : Word
  cue : Word
  selectMode : Word
  select : SelectWords
  fname : Str etFuncnameLength
  lib : Str etFilenameLength
  classs : Str etFilenameLength
  name : Str etStatnameLength

/-- What a snapshot has of an attachment.  `active` says that its status is not
`ET_ATT_UNUSED`. -/
structure AttachState where
  active : Bool
  num : Word
  proc : Word
  stat : Word
  pid : Word
  blocked : Word
  quit : Word
  eventsPut : BitVec 64
  eventsGet : BitVec 64
  eventsDump : BitVec 64
  eventsMake : BitVec 64
  host : Str etMaxhostnamelen
  interface : Str etIpaddrstrlen

/-- What a snapshot has of a process.  `opened` says that its status is `ET_PROC_OPEN`. -/
structure ProcState where
  opened : Bool
  num : Word
  heartbeat : Word
  pid : Word
  att : AttTable

/-- **The state of a system**: the values of the system itself, the owners of its events, and
its stations, attachments and processes.  `next` and `nextparallel` are the forward links of
the stations. -/
structure SystemState where
  alive : Word
  heartbeat : Word
  ntemps : Word
  nstations : Word
  nattachments : Word
  nprocesses : Word
  mutex : Word
  statMutex : Word
  stataddMutex : Word
  endian : Word
  share : Word
  mainpid : Word
  nselects : Word
  nevents : Word
  eventSize : BitVec 64
  bit64 : Word
  ntempsMax : Word
  nstationsMax : Word
  nattachmentsMax : Word
  nprocessesMax : Word
  tcpPort : Word
  port : Word
  netinfo : Addresses
  mcastaddrs : Addresses
  filename : Str etFilenameLength
  owner : ℕ → Word
  stat : ℕ → StatState
  next : ℕ → Option ℕ
  nextparallel : ℕ → Option ℕ
  attach : ℕ → AttachState
  proc : ℕ → ProcState

/-! ## What a monitor has of it -/

/-- `et_sysdata`. -/
structure SysData where
  alive : Word
  heartbeat : Word
  ntemps : Word
  nstations : Word
  nattachments : Word
  nprocesses : Word
  eventsOwned : Word
  mutex : Word
  statMutex : Word
  stataddMutex : Word
  endian : Word
  share : Word
  mainpid : Word
  nselects : Word
  nevents : Word
  eventSize : BitVec 64
  bit64 : Word
  ntempsMax : Word
  nstationsMax : Word
  nattachmentsMax : Word
  nprocessesMax : Word
  tcpPort : Word
  udpPort : Word
  multiPort : Word
  ifaddrs : List (Str etIpaddrstrlen)
  mcastaddrs : List (Str etIpaddrstrlen)
  filename : Str etFilenameLength

/-- `et_statdata`. -/
structure StatData where
  num : Word
  status : Word
  mutex : Word
  nattachments : ℕ
  att : Fin etAttachmentsMax → Word
  inlistMutex : Word
  inlistCnt : Word
  inlistTry : BitVec 64
  inlistIn : BitVec 64
  outlistMutex : Word
  outlistCnt : Word
  outlistOut : BitVec 64
  flowMode : Word
  userMode : Word
  restoreMode : Word
  blockMode : Word
  prescale : Word
  cue : Word
  selectMode : Word
  select : SelectWords
  fname : Str etFuncnameLength
  lib : Str etFilenameLength
  classs : Str etFilenameLength
  name : Str etStatnameLength

/-- `et_attdata`. -/
structure AttData where
  num : Word
  proc : Word
  stat : Word
  pid : Word
  blocked : Word
  quit : Word
  owned : Word
  eventsPut : BitVec 64
  eventsGet : BitVec 64
  eventsDump : BitVec 64
  eventsMake : BitVec 64
  host : Str etMaxhostnamelen
  station : Str etStatnameLength
  interface : Str etIpaddrstrlen

/-- `et_procdata`. -/
structure ProcData where
  num : Word
  heartbeat : Word
  pid : Word
  nattachments : ℕ
  att : Fin etAttachmentsMax → Word

/-- `et_alldata`. -/
structure AllData where
  nstations : Word
  natts : Word
  nprocs : Word
  sysdata : SysData
  statdata : List StatData
  attdata : List AttData
  procdata : List ProcData

/-! ## Writing -/

/-- What was written to a buffer of the given size. -/
def malloced (size : ℕ) (bytes : List Byte) : Option (List Byte) :=
  if bytes.length ≤ size then some bytes else none

namespace SystemState

variable (s : SystemState)

/-- The events an attachment or the system owns. -/
def eventsOwned (id : Word) : Word :=
  BitVec.ofNat 32 ((List.range s.nevents.toNat).filter fun i => s.owner i = id).length

/-- The integers of the system. -/
def sysInts : List Word :=
  [s.alive, s.heartbeat, s.ntemps, s.nstations, s.nattachments, s.nprocesses, s.eventsOwned (-1),
    s.mutex, s.statMutex, s.stataddMutex, s.endian, s.share, s.mainpid, s.nselects, s.nevents,
    highInt s.eventSize, lowInt s.eventSize, s.bit64, s.ntempsMax, s.nstationsMax,
    s.nattachmentsMax, s.nprocessesMax, s.tcpPort, s.port, s.port,
    BitVec.ofNat 32 s.netinfo.1.length, BitVec.ofNat 32 s.mcastaddrs.1.length]

/-- `et_data_sys`.  Its buffer has the size of what is written. -/
def etDataSys : List Byte :=
  putWords (s.sysInts ++ (s.netinfo.1.map (·.1.size) ++
    (s.mcastaddrs.1.map (·.1.size) ++ [s.filename.1.size]))) ++
  (s.netinfo.1.flatMap (·.1.put) ++ (s.mcastaddrs.1.flatMap (·.1.put) ++ s.filename.1.put))

/-- `ps->config.flow_mode == ET_STATION_PARALLEL`. -/
def isParallel (ps : ℕ) : Bool := (s.stat ps).flowMode = .parallel

/-- The stations behind `pstat` in its group. -/
def countParallel : ℕ → ℕ → Option ℕ
  | 0, _ => none
  | fuel + 1, pstat =>
      match s.nextparallel pstat with
      | some p => (countParallel fuel p).map (· + 1)
      | none => some 0

/-- The stations in parallel to `ps`. -/
def countGroup (fuel ps : ℕ) : Option ℕ :=
  if s.isParallel ps then s.countParallel fuel ps else some 0

/-- The number of stations from `ps` on, for which the buffer is made. -/
def countStations (groupFuel : ℕ) : ℕ → ℕ → Option ℕ
  | 0, _ => none
  | fuel + 1, ps => do
      let count ← s.countGroup groupFuel ps
      match s.next ps with
      | some p => (countStations groupFuel fuel p).map (1 + count + ·)
      | none => some (1 + count)

end SystemState

/-- The flow mode that is sent: `ET_STATION_PARALLEL_HEAD` for the head of a group. -/
def FlowMode.sent (parallelHead : Bool) : FlowMode → Word
  | .serial => 0
  | .parallel => if parallelHead then 2 else 1

/-- The integers of a station before and after its attachments. -/
def StatState.ints (st : StatState) (parallelHead : Bool) : List Word :=
  [BitVec.ofNat 32 st.att.used.length, st.num, st.status, st.mutex] ++
  (st.att.used.map st.att.entry ++
  ([st.inMutex, st.inCnt, highInt st.eventsTry, lowInt st.eventsTry, highInt st.eventsIn,
    lowInt st.eventsIn, st.outMutex, st.outCnt, highInt st.eventsOut, lowInt st.eventsOut,
    st.flowMode.sent parallelHead, st.userMode, st.restoreMode, st.blockMode, st.prescale, st.cue,
    st.selectMode] ++ (st.select.toList ++
  [st.fname.1.size, st.lib.1.size, st.classs.1.size, st.name.1.size])))

/-- What is written of a station. -/
def StatState.bytes (st : StatState) (parallelHead : Bool) : List Byte :=
  putWords (st.ints parallelHead) ++
    (st.fname.1.put ++ (st.lib.1.put ++ (st.classs.1.put ++ st.name.1.put)))

namespace SystemState

variable (s : SystemState)

/-- **The walk along the chain** that writes the stations.  `ps` is written now, `pstat` is
the station of the main list at which the walk is; it stops when it has seen more than
`count1` stations.  The result is the number of stations seen and what was written. -/
def writeStats (count1 : ℕ) :
    (fuel ps pstat : ℕ) → (parallelHead : Bool) → (count2 : ℕ) → Option (ℕ × List Byte)
  | 0, _, _, _, _ => none
  | fuel + 1, ps, pstat, parallelHead, count2 =>
      if count1 < count2 + 1 then some (count2 + 1, []) else
      let bytes := (s.stat ps).bytes parallelHead
      let go (p pstat : ℕ) (parallelHead : Bool) :=
        (writeStats count1 fuel p pstat parallelHead (count2 + 1)).map fun r => (r.1, bytes ++ r.2)
      let goMain (parallelHead : Bool) :=
        match s.next pstat with
        | some p => go p p parallelHead
        | none => some (count2 + 1, bytes)
      if s.isParallel ps then
        match s.nextparallel ps with
        | some p => go p pstat false
        | none => goMain true
      else goMain parallelHead

/-- The room for a station in the buffer: `ints` has room for all attachments, and there are
three strings. -/
def statRoom : ℕ :=
  4 * (25 + etAttachmentsMax + etStationSelectInts) + etFuncnameLength + etFilenameLength +
    etStatnameLength

/-- `et_data_stats`. -/
def etDataStats (fuel : ℕ) : Option (List Byte) := do
  let count1 ← s.countStations fuel fuel 0
  let (count2, bytes) ← s.writeStats count1 fuel 0 0 true 0
  let count := if count2 < count1 then count2 else count1
  malloced (4 + count1 * statRoom) (htonl (BitVec.ofNat 32 count) ++ bytes)

/-- What is written of an attachment. -/
def attBytes (a : AttachState) : List Byte :=
  putWords [a.num, a.proc, a.stat, a.pid, a.blocked, a.quit, s.eventsOwned a.num,
    highInt a.eventsPut, lowInt a.eventsPut, highInt a.eventsGet, lowInt a.eventsGet,
    highInt a.eventsDump, lowInt a.eventsDump, highInt a.eventsMake, lowInt a.eventsMake,
    a.host.1.size, (s.stat a.stat.toNat).name.1.size, a.interface.1.size] ++
  (a.host.1.put ++ ((s.stat a.stat.toNat).name.1.put ++ a.interface.1.put))

/-- The attachments in use. -/
def usedAtts : List AttachState :=
  ((List.range s.nattachmentsMax.toNat).map s.attach).filter (·.active)

/-- The room for an attachment in the buffer: the integers and two strings. -/
def attRoom : ℕ := 4 * 18 + etMaxhostnamelen + etStatnameLength

/-- `et_data_atts`. -/
def etDataAtts : Option (List Byte) :=
  malloced (4 + s.usedAtts.length * attRoom)
    (htonl (BitVec.ofNat 32 s.usedAtts.length) ++ s.usedAtts.flatMap s.attBytes)

end SystemState

/-- What is written of a process. -/
def ProcState.bytes (p : ProcState) : List Byte :=
  putWords ([BitVec.ofNat 32 p.att.used.length, p.num, p.heartbeat, p.pid] ++
    p.att.used.map p.att.entry)

namespace SystemState

variable (s : SystemState)

/-- The open processes. -/
def openProcs : List ProcState :=
  ((List.range s.nprocessesMax.toNat).map s.proc).filter (·.opened)

/-- The room for a process in the buffer. -/
def procRoom : ℕ := 4 * (4 + etAttachmentsMax)

/-- `et_data_procs`. -/
def etDataProcs : Option (List Byte) :=
  malloced (4 + s.openProcs.length * procRoom)
    (htonl (BitVec.ofNat 32 s.openProcs.length) ++ s.openProcs.flatMap (·.bytes))

/-- **The snapshot**: the four buffers, one after the other. -/
def snapshot (fuel : ℕ) : Option (List Byte) := do
  let stats ← s.etDataStats fuel
  let atts ← s.etDataAtts
  let procs ← s.etDataProcs
  return s.etDataSys ++ (stats ++ (atts ++ procs))

end SystemState

/-! ## Reading -/

/-- `et_data_getsys`.  There is no telling what happens when there are too many addresses. -/
def etDataGetsys : Reader SysData := do
  let ints ← readWords 27
  let ifcount := (ints.getD 25 0).toNat
  let mcount := (ints.getD 26 0).toNat
  if etMaxaddresses < ifcount ∨ etMaxaddresses < mcount then failure else
  let len := (← readWords (ifcount + mcount + 1)).map BitVec.toNat
  let ifaddrs ← readStrs etIpaddrstrlen (len.take ifcount)
  let mcastaddrs ← readStrs etIpaddrstrlen ((len.drop ifcount).take mcount)
  let filename ← readStr etFilenameLength (len.getD (ifcount + mcount) 0)
  return {
    alive := ints.getD 0 0
    heartbeat := ints.getD 1 0
    ntemps := ints.getD 2 0
    nstations := ints.getD 3 0
    nattachments := ints.getD 4 0
    nprocesses := ints.getD 5 0
    eventsOwned := ints.getD 6 0
    mutex := ints.getD 7 0
    statMutex := ints.getD 8 0
    stataddMutex := ints.getD 9 0
    endian := ints.getD 10 0
    share := ints.getD 11 0
    mainpid := ints.getD 12 0
    nselects := ints.getD 13 0
    nevents := ints.getD 14 0
    eventSize := uint64 (ints.getD 15 0) (ints.getD 16 0)
    bit64 := ints.getD 17 0
    ntempsMax := ints.getD 18 0
    nstationsMax := ints.getD 19 0
    nattachmentsMax := ints.getD 20 0
    nprocessesMax := ints.getD 21 0
    tcpPort := ints.getD 22 0
    udpPort := ints.getD 23 0
    multiPort := ints.getD 24 0
    ifaddrs, mcastaddrs, filename }

/-- `att[att] = att` for the attachments read.  There is no telling what happens when one is
outside the table. -/
def fillAtt : List Word → (Fin etAttachmentsMax → Word) →
    Reader (Fin etAttachmentsMax → Word)
  | [], t => return t
  | att :: atts, t =>
      if h : att.toNat < etAttachmentsMax then
        fillAtt atts (Function.update t ⟨att.toNat, h⟩ att)
      else failure

/-- The body of the loop of `et_data_getstat`. -/
def readStat : Reader StatData := do
  let natts := (← readWord).toNat
  if etAttachmentsMax < natts then failure else
  let ints ← readWords (24 + etStationSelectInts + natts)
  let att ← fillAtt ((List.range natts).map fun j => ints.getD (3 + j) 0) fun _ => -1
  let k := 3 + natts
  let k' := k + 17 + etStationSelectInts
  let fname ← readStr etFuncnameLength (ints.getD (k' + 0) 0).toNat
  let lib ← readStr etFilenameLength (ints.getD (k' + 1) 0).toNat
  let classs ← readStr etFilenameLength (ints.getD (k' + 2) 0).toNat
  let name ← readStr etStatnameLength (ints.getD (k' + 3) 0).toNat
  return {
    num := ints.getD 0 0
    status := ints.getD 1 0
    mutex := ints.getD 2 0
    nattachments := natts
    att
    inlistMutex := ints.getD (k + 0) 0
    inlistCnt := ints.getD (k + 1) 0
    inlistTry := uint64 (ints.getD (k + 2) 0) (ints.getD (k + 3) 0)
    inlistIn := uint64 (ints.getD (k + 4) 0) (ints.getD (k + 5) 0)
    outlistMutex := ints.getD (k + 6) 0
    outlistCnt := ints.getD (k + 7) 0
    outlistOut := uint64 (ints.getD (k + 8) 0) (ints.getD (k + 9) 0)
    flowMode := ints.getD (k + 10) 0
    userMode := ints.getD (k + 11) 0
    restoreMode := ints.getD (k + 12) 0
    blockMode := ints.getD (k + 13) 0
    prescale := ints.getD (k + 14) 0
    cue := ints.getD (k + 15) 0
    selectMode := ints.getD (k + 16) 0
    select := .ofList ints (k + 17)
    fname, lib, classs, name }

/-- The body of the loop of `et_data_getatt`. -/
def readAtt : Reader AttData := do
  let ints ← readWords 18
  let host ← readStr etMaxhostnamelen (ints.getD 15 0).toNat
  let station ← readStr etStatnameLength (ints.getD 16 0).toNat
  let interface ← readStr etIpaddrstrlen (ints.getD 17 0).toNat
  return {
    num := ints.getD 0 0
    proc := ints.getD 1 0
    stat := ints.getD 2 0
    pid := ints.getD 3 0
    blocked := ints.getD 4 0
    quit := ints.getD 5 0
    owned := ints.getD 6 0
    eventsPut := uint64 (ints.getD 7 0) (ints.getD 8 0)
    eventsGet := uint64 (ints.getD 9 0) (ints.getD 10 0)
    eventsDump := uint64 (ints.getD 11 0) (ints.getD 12 0)
    eventsMake := uint64 (ints.getD 13 0) (ints.getD 14 0)
    host, station, interface }

/-- The body of the loop of `et_data_getproc`. -/
def readProc : Reader ProcData := do
  let natts := (← readWord).toNat
  if etAttachmentsMax < natts then failure else
  let ints ← readWords (3 + natts)
  let att ← fillAtt ((List.range natts).map fun j => ints.getD (3 + j) 0) fun _ => -1
  return {
    num := ints.getD 0 0
    heartbeat := ints.getD 1 0
    pid := ints.getD 2 0
    nattachments := natts
    att }

/-- **What `et_data_get` makes of the bytes it read**: `et_data_getsys`, `et_data_getstat`,
`et_data_getatt` and `et_data_getproc`, with a number of records before each of the last
three. -/
def etDataUnpack : Reader AllData := do
  let sysdata ← etDataGetsys
  let nstations ← readWord
  let statdata ← readMany readStat nstations.toNat
  let natts ← readWord
  let attdata ← readMany readAtt natts.toNat
  let nprocs ← readWord
  let procdata ← readMany readProc nprocs.toNat
  return { nstations, natts, nprocs, sysdata, statdata, attdata, procdata }

end EventTransfer
