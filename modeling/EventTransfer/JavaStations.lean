import EventTransfer.JavaConductor
import EventTransfer.Lib.StepRun

/-!
# The stations of the Java system

Stations are objects.  The system keeps those of the main list in `stations`; the head of a
group of parallel stations keeps all members of its group in `parallelStations`, with itself as
the first.  A request to create, remove or move a station holds the mutex of all stations.  It
takes the transfer locks of all stations that it finds in the lists, changes the lists, and
releases the locks of all stations that it then finds there.

An object is the number of objects that were constructed before it, so that GRAND_CENTRAL is
`0`.  What a station was constructed with stays as it is.  A transfer lock is given as the number
of times it is held by requests.  No request releases a lock that it does not hold, and
`listIterator(1)` and `remove(0)` are called on the list of a head only, which is not empty; so
that subtraction and `drop` are what they do.

Two slips can take the lists apart (`StationRequest.Sound`).  A station that is moved is deleted
first; where it cannot be inserted again, it is in no list any more, and its lock is never
released.  And the checks that the clients make before they send a request are not made again:
a place in front of GRAND_CENTRAL, GRAND_CENTRAL as the station to be moved or removed.  A third
one breaks the limit on stations only: members of groups are not counted.
-/

namespace EventTransfer

/-- `EtStationConfig`, as far as creating a station looks at it. -/
structure JavaStationConfig where
  flowMode : FlowMode
  userMode : ℤ
  blockMode : BlockMode
  selectMode : SelectMode
  restoreMode : RestoreMode
  prescale : ℤ
  cue : ℤ
  select : List ℤ
  selectClass : Option String
  deriving DecidableEq, Repr

/-- The configuration of GRAND_CENTRAL. -/
def JavaStationConfig.default : JavaStationConfig where
  flowMode := .serial
  userMode := etStationUserMulti
  blockMode := .blocking
  selectMode := .all
  restoreMode := .out
  prescale := etStationPrescale
  cue := etStationCue
  select := List.replicate etStationSelectInts (-1)
  selectClass := none

/-- Round-robin and equal-cue groups. -/
def JavaStationConfig.isSharing (config : JavaStationConfig) : Prop :=
  config.selectMode = .rrobin ∨ config.selectMode = .equalcue

instance (config : JavaStationConfig) : Decidable config.isSharing :=
  inferInstanceAs (Decidable (_ ∨ _))

/-- **May a station be in the group** of another? -/
def compatibleParallelConfigs (group config : JavaStationConfig) : Bool :=
  if group.flowMode ≠ .parallel ∨ config.flowMode ≠ .parallel then false
  else if (group.selectMode = .rrobin ∧ config.selectMode ≠ .rrobin) ∨
      (group.selectMode = .equalcue ∧ config.selectMode ≠ .equalcue) then false
  else if group.isSharing ∧
      (group.blockMode ≠ config.blockMode ∨ group.prescale ≠ config.prescale) then false
  else if ¬ group.isSharing ∧ config.isSharing then false
  else true

/-- The test for a station that is created again: has it been defined in the same way? -/
def JavaStationConfig.sameDefinition (listed config : JavaStationConfig) : Bool :=
  listed.flowMode = config.flowMode ∧ listed.userMode = config.userMode ∧
    listed.blockMode = config.blockMode ∧ listed.selectMode = config.selectMode ∧
    listed.restoreMode = config.restoreMode ∧ listed.prescale = config.prescale ∧
    listed.cue = config.cue ∧ listed.select = config.select ∧
    (listed.selectClass ≠ none → listed.selectClass = config.selectClass)

/-- `EtConstants.end` and `EtConstants.newHead`. -/
def endPosition : ℤ := -1

@[inherit_doc endPosition] def newHeadPosition : ℤ := -2

/-- The exceptions of a request; `runtime` stands for an index that is out of bounds. -/
inductive StationException
  | tooMany
  | exists
  | et
  | runtime
  deriving DecidableEq, Repr

/-- **The system**, as far as its stations go. -/
structure SystemCreate where
  stations : List ℕ
  parallelStations : ℕ → List ℕ
  stationId : ℕ → ℤ
  stationName : ℕ → String
  config : ℕ → JavaStationConfig
  stopTransferLock : ℕ → ℕ
  stationCount : ℕ
  created : ℕ

namespace SystemCreate

/-- `createGrandCentral`. -/
def createGrandCentral : SystemCreate where
  stations := [0]
  parallelStations _ := []
  stationId _ := 0
  stationName _ := "GRAND_CENTRAL"
  config _ := .default
  stopTransferLock _ := 0
  stationCount := 1
  created := 1

variable (sys : SystemCreate)

def isParallel (s : ℕ) : Bool := (sys.config s).flowMode = .parallel

/-- **The list of stations** with the groups of its heads. -/
def slots : List JavaSlot :=
  sys.stations.map fun s =>
    if sys.isParallel s then .group s ((sys.parallelStations s).drop 1) else .serial s

/-- All stations in the order in which the loops over them come to them. -/
def walk : List ℕ := sys.slots.flatMap JavaSlot.members

/-! ### Locks -/

/-- Take the locks of the given stations, one after another. -/
def lockEach : List ℕ → (ℕ → ℕ) → (ℕ → ℕ)
  | [], lock => lock
  | s :: rest, lock => lockEach rest (Function.update lock s (lock s + 1))

/-- Release the locks of the given stations. -/
def unlockEach : List ℕ → (ℕ → ℕ) → (ℕ → ℕ)
  | [], lock => lock
  | s :: rest, lock => unlockEach rest (Function.update lock s (lock s - 1))

def lockAllStationTransferLocks : SystemCreate :=
  { sys with stopTransferLock := lockEach sys.walk sys.stopTransferLock }

def unlockAllStationTransferLocks : SystemCreate :=
  { sys with stopTransferLock := unlockEach sys.walk sys.stopTransferLock }

/-! ### The lists -/

/-- `stations.add`, at the end or at a position. -/
def addToMain (index newStation : ℕ) : SystemCreate :=
  { sys with
    stations := sys.stations.insertIdx index newStation
    parallelStations :=
      if sys.isParallel newStation then
        Function.update sys.parallelStations newStation [newStation]
      else sys.parallelStations }

/-- **Insert a station.**  Nothing has been changed when it throws. -/
def insertStation (newStation : ℕ) (position parallelPosition : ℤ) :
    Except StationException SystemCreate :=
  if sys.stations.length < 2 ∨ (sys.stations.length : ℤ) ≤ position ∨ position = endPosition then
    .ok (sys.addToMain sys.stations.length newStation)
  else if position < 0 then .error .runtime
  else
    match sys.stations[position.toNat]? with
    | none => .error .runtime
    | some stat =>
        if sys.isParallel newStation ∧ sys.isParallel stat ∧ parallelPosition ≠ newHeadPosition then
          if ¬ compatibleParallelConfigs (sys.config stat) (sys.config newStation) then .error .et
          else if parallelPosition = 0 then .error .et
          else if parallelPosition = endPosition ∨
              ((sys.parallelStations stat).length : ℤ) ≤ parallelPosition then
            .ok { sys with
              parallelStations := Function.update sys.parallelStations stat
                (sys.parallelStations stat ++ [newStation]) }
          else if parallelPosition < 0 then .error .runtime
          else
            .ok { sys with
              parallelStations := Function.update sys.parallelStations stat
                ((sys.parallelStations stat).insertIdx parallelPosition.toNat newStation) }
        else .ok (sys.addToMain position.toNat newStation)

/-- The search for the group of a station that is not in the main list. -/
def removeFromGroup (station : ℕ) : List ℕ → (ℕ → List ℕ) → (ℕ → List ℕ)
  | [], parallelStations => parallelStations
  | nextStation :: rest, parallelStations =>
      if sys.isParallel nextStation ∧ station ∈ parallelStations nextStation then
        Function.update parallelStations nextStation ((parallelStations nextStation).erase station)
      else removeFromGroup station rest parallelStations

/-- **Delete a station** from the lists.  The group of a head is passed on to the next member,
which takes its place. -/
def deleteStation (station : ℕ) : SystemCreate :=
  if station ∈ sys.stations then
    let index := sys.stations.idxOf station
    let stations := sys.stations.erase station
    if ¬ sys.isParallel station then { sys with stations := stations }
    else
      match (sys.parallelStations station).drop 1 with
      | [] =>
          { sys with
            stations := stations
            parallelStations := Function.update sys.parallelStations station [] }
      | nextStation :: rest =>
          { sys with
            stations := stations.insertIdx index nextStation
            parallelStations :=
              Function.update (Function.update sys.parallelStations nextStation
                (nextStation :: rest)) station [] }
  else
    { sys with
      parallelStations := sys.removeFromGroup station sys.stations sys.parallelStations }

def addStationToList (newStation : ℕ) (position parallelPosition : ℤ) :
    SystemCreate × Except StationException Unit :=
  let locked := sys.lockAllStationTransferLocks
  match locked.insertStation newStation position parallelPosition with
  | .error e => (locked.unlockAllStationTransferLocks, .error e)
  | .ok sys' =>
      ({ sys' with stopTransferLock := lockEach [newStation] sys'.stopTransferLock
        }.unlockAllStationTransferLocks, .ok ())

def removeStationFromList (station : ℕ) : SystemCreate :=
  let sys' := sys.lockAllStationTransferLocks.deleteStation station
  { sys' with stopTransferLock := unlockEach [station] sys'.stopTransferLock
    }.unlockAllStationTransferLocks

def moveStationInList (station : ℕ) (position parallelPosition : ℤ) :
    SystemCreate × Except StationException Unit :=
  let sys' := sys.lockAllStationTransferLocks.deleteStation station
  match sys'.insertStation station position parallelPosition with
  | .error e => (sys'.unlockAllStationTransferLocks, .error e)
  | .ok sys'' => (sys''.unlockAllStationTransferLocks, .ok ())

/-! ### Requests -/

def stationNameToObject (name : String) : Option ℕ :=
  sys.walk.find? fun s => sys.stationName s = name

def stationIdToObject (statId : ℤ) : Option ℕ :=
  sys.walk.find? fun s => sys.stationId s = statId

/-- The smallest id that no station has, if one up to the number of stations is free. -/
def unusedId : ℤ :=
  let free := (List.range (sys.stationCount + 1)).find? fun i : ℕ =>
    ∀ s ∈ sys.walk, sys.stationId s ≠ i
  (free.getD 0 : ℕ)

/-- The system with a new object, in no list.  Its conductor is started. -/
def construct (config : JavaStationConfig) (name : String) : SystemCreate :=
  let s := sys.created
  { sys with
    parallelStations := Function.update sys.parallelStations s []
    stationId := Function.update sys.stationId s sys.unusedId
    stationName := Function.update sys.stationName s name
    config := Function.update sys.config s config
    stopTransferLock := Function.update sys.stopTransferLock s 0
    created := s + 1 }

/-- **Create a station**, or find the one of that name.  `loads` tells whether the class that
selects its events can be loaded. -/
def createStation (stationsMax : ℕ) (loads : JavaStationConfig → Bool) (config : JavaStationConfig)
    (name : String) (position parallelPosition : ℤ) :
    SystemCreate × Except StationException ℕ :=
  if stationsMax ≤ sys.stations.length then (sys, .error .tooMany)
  else
    let position : ℤ := if position > sys.stations.length then sys.stations.length else position
    match sys.stationNameToObject name with
    | some listStation =>
        if (sys.config listStation).sameDefinition config then (sys, .ok listStation)
        else (sys, .error .exists)
    | none =>
        if ¬ loads config then (sys, .error .et)
        else
          let r := (sys.construct config name).addStationToList sys.created position
            parallelPosition
          match r.2 with
          | .error e => (r.1, .error e)
          | .ok () => ({ r.1 with stationCount := r.1.stationCount + 1 }, .ok sys.created)

/-- **Remove a station.**  `attached` tells whether attachments to it exist. -/
def removeStation (statId : ℤ) (attached : Bool) : SystemCreate × Except StationException ℕ :=
  match sys.stationIdToObject statId with
  | none => (sys, .error .et)
  | some stat =>
      if attached then (sys, .error .et)
      else
        let sys' := sys.removeStationFromList stat
        ({ sys' with stationCount := sys'.stationCount - 1 }, .ok stat)

/-- **Move a station.** -/
def setStationPosition (statId position parallelPosition : ℤ) :
    SystemCreate × Except StationException ℕ :=
  match sys.stationIdToObject statId with
  | none => (sys, .error .et)
  | some stat =>
      let r := sys.moveStationInList stat position parallelPosition
      match r.2 with
      | .error e => (r.1, .error e)
      | .ok () => (r.1, .ok stat)

/-- The position of a station in the main list, or of the head of its group. -/
def getStationPosition (statId : ℤ) : Option ℕ :=
  if statId = 0 then some 0
  else sys.slots.findIdx? fun slot => ∃ s ∈ slot.members, sys.stationId s = statId

/-- The position in a group, where the first member behind the head has the position 2. -/
def getStationParallelPosition (statId : ℤ) : Option ℕ :=
  if statId = 0 then some 0
  else
    (sys.slots.find? fun slot => ∃ s ∈ slot.members, sys.stationId s = statId).map fun slot =>
      if sys.stationId slot.head = statId then 0
      else 1 + slot.members.findIdx fun s => sys.stationId s = statId

end SystemCreate

/-- A request of a client. -/
inductive StationRequest
  | createStation (config : JavaStationConfig) (name : String) (position parallelPosition : ℤ)
  | removeStation (statId : ℤ) (attached : Bool)
  | setStationPosition (statId position parallelPosition : ℤ)
  deriving DecidableEq, Repr

/-- What a request does, and the station it returns. -/
def SystemCreate.serve (stationsMax : ℕ) (loads : JavaStationConfig → Bool) (sys : SystemCreate) :
    StationRequest → SystemCreate × Except StationException ℕ
  | .createStation config name position parallelPosition =>
      sys.createStation stationsMax loads config name position parallelPosition
  | .removeStation statId attached => sys.removeStation statId attached
  | .setStationPosition statId position parallelPosition =>
      sys.setStationPosition statId position parallelPosition

end EventTransfer
