import EventTransfer.StationSearch

/-!
# Creating, removing and moving stations

`et_station_create_at`, `et_station_remove` and `et_station_setposition` as they change the
station table, and the runs made of them.  The calls are those of a process that has the ET
system open locally and alive; `started` says whether the system could start a conductor
thread for the new station, which then marks the station `ET_STATION_IDLE`.
-/

namespace EventTransfer

open LinkedHeap StoreProgram StoreProgram.Prog

/-- `ET_STATNAME_LENGTH`. -/
def etStatnameLength : ℕ := 48

/-- A bad parallel position, by the check both routines make. -/
def badParallelposition (parallelposition : ℤ) : Prop :=
  parallelposition ≠ etEnd ∧ parallelposition ≠ etNewhead ∧ parallelposition < 0

instance (parallelposition : ℤ) : Decidable (badParallelposition parallelposition) :=
  inferInstanceAs (Decidable (_ ∧ _ ∧ _))

/-- `et_station_exists`: the id of the first station of that name. -/
def stationExists (cfg : SysConfig) (s : Stations) (name : String) : Option ℕ :=
  (List.range cfg.nstations).find? fun i => s.status i ≠ .unused ∧ s.name i = name

/-- "See if station configurations are identical". -/
def sameConfig (old sc : StatConfig) : Prop :=
  old.flowMode = sc.flowMode ∧ old.userMode = sc.userMode ∧ old.blockMode = sc.blockMode ∧
  old.selectMode = sc.selectMode ∧ old.restoreMode = sc.restoreMode ∧
  old.prescale = sc.prescale ∧ old.cue = sc.cue ∧ old.select = sc.select ∧
  old.selectMode ≠ .user

instance (old sc : StatConfig) : Decidable (sameConfig old sc) :=
  inferInstanceAs (Decidable (_ ∧ _ ∧ _ ∧ _ ∧ _ ∧ _ ∧ _ ∧ _ ∧ _))

/-- The search of `et_station_create_at` for a free place in the station array. -/
def firstUnused (cfg : SysConfig) (s : Stations) : Option ℕ :=
  (List.range cfg.nstations).find? fun i => s.status i = .unused

/-- The part of `et_station_create_at` after its checks, for a station that does not exist
yet: take a free place, fill it in, start its conductor, and insert it.  The value is the
return code and the value of `*stat_id`, if it is set. -/
def createNew (cfg : SysConfig) (fuel : ℕ) (started : Bool) (statName : String)
    (sc : StatConfig) (position parallelposition : ℤ) :
    Prog Stations (Option (Ret × Option ℕ)) := do
  store fun t => { t with nstations := t.nstations + 1 }
  let s ← get
  match firstUnused cfg s with
  | none => do
      store fun t => { t with nstations := t.nstations - 1 }
      pure (some (.error, none))
  | some ps => do
      store fun t => t.initStation ps
      store fun t => { t with name := assign t.name (some ps) statName }
      store fun t => { t with config := assign t.config (some ps) sc }
      store fun t => { t with status := assign t.status (some ps) .creating }
      if statName = "GRAND_CENTRAL" then pure (some (.ok, none))
      else if started = false then do
        store fun t => { t with nstations := t.nstations - 1 }
        store fun t => t.initStation ps
        pure (some (.error, none))
      else do
        -- the new conductor's doing
        store fun t => { t with status := assign t.status (some ps) .idle }
        let r ← stationInsert fuel ps position parallelposition
        match r with
        | none => pure none
        | some .ok => pure (some (.ok, some ps))
        | some _ => do
            store fun t => { t with status := assign t.status (some ps) .unused }
            store fun t => { t with nstations := t.nstations - 1 }
            pure (some (.error, none))

/-- `et_station_create_at`; `none` is a null pointer. -/
def etStationCreateAt (cfg : SysConfig) (fuel : ℕ) (started : Bool) (statName : Option String)
    (sconfig : Option StatConfig) (position parallelposition : ℤ) :
    Prog Stations (Option (Ret × Option ℕ)) :=
  match statName with
  | none => pure (some (.error, none))
  | some name => do
      let sc := sconfig.getD .default
      if etStatnameLength - 1 < name.utf8ByteSize then pure (some (.error, none))
      else if position ≠ etEnd ∧ position < 0 then pure (some (.error, none))
      else if badParallelposition parallelposition then pure (some (.error, none))
      else if sc.init = false then pure (some (.error, none))
      else if name ≠ "GRAND_CENTRAL" ∧ position = 0 then pure (some (.error, none))
      else
        match stationConfigCheck cfg sc with
        | none => pure (some (.error, none))
        | some sc => do
            let s ← get
            match stationExists cfg s name with
            | some i =>
                if s.status i ≠ .creating ∧ sameConfig (s.config i) sc then
                  pure (some (.ok, some i))
                else pure (some (.errorExists, some i))
            | none =>
                if (cfg.nstations : ℤ) ≤ s.nstations then pure (some (.errorToomany, none))
                else createNew cfg fuel started name sc position parallelposition

/-- `et_station_remove`. -/
def etStationRemove (cfg : SysConfig) (statId : ℤ) : Prog Stations Ret := do
  if statId < 0 then pure .error
  else if statId = 0 then pure .error
  else if (cfg.nstations : ℤ) ≤ statId then pure .error
  else do
    let s ← get
    if 0 < s.nattachments statId.toNat then pure .error
    else do
      stationRemove statId.toNat
      store fun t => { t with status := assign t.status (some statId.toNat) .unused }
      store fun t => { t with nstations := t.nstations - 1 }
      pure .ok

/-- `et_station_setposition`.  If the station cannot be put in its new place it goes back
to the one `station_find` has found; that place is not defined if nothing was found. -/
def etStationSetposition (cfg : SysConfig) (fuel : ℕ) (statId position parallelposition : ℤ) :
    Prog Stations (Option Ret) := do
  if statId < 0 then pure (some .error)
  else if statId = 0 then pure (some (if position = 0 then .ok else .error))
  else if position ≠ etEnd ∧ position < 0 then pure (some .error)
  else if position = 0 then pure (some .error)
  else if badParallelposition parallelposition then pure (some .error)
  else if (cfg.nstations : ℤ) ≤ statId then pure (some .error)
  else do
    let s ← get
    if ¬ s.InUse statId.toNat then pure (some .error)
    else do
      stationRemove statId.toNat
      let err ← stationInsert fuel statId.toNat position parallelposition
      if err = some .ok then pure (some .ok)
      else
        match stationFind fuel s statId.toNat with
        | some (some current) => do
            let again ← stationInsert fuel statId.toNat current.1 current.2
            pure (again.bind fun _ => err)
        | _ => pure none

/-! ## Runs -/

/-- The configuration `et_grandcentral_station_create` gives GRAND_CENTRAL. -/
def grandcentralConfig : StatConfig :=
  { StatConfig.default with restoreMode := .gc }

/-- The station table `et_grandcentral_station_create` leaves: GRAND_CENTRAL is created in
an empty table, and its conductor has marked it `ET_STATION_ACTIVE`. -/
def Stations.initial (cfg : SysConfig) : Stations :=
  let s := final (etStationCreateAt cfg 0 true (some "GRAND_CENTRAL") (some grandcentralConfig)
    etEnd etEnd) .blank
  { s with status := assign s.status (some 0) .active }

end EventTransfer
