import EventTransfer.StationRun
import EventTransfer.Lib.StepRun

/-!
# Changing the configuration of a station

`et_station_setblock`, `et_station_setuser`, `et_station_setrestore`, `et_station_setprescale`
and `et_station_setcue` change one field each in the configuration of a station that exists.
They are one routine (`setConfig`) with a check of the value, a check against the station's
configuration, and the field.  The calls are those of a process that has the ET system open
locally and alive.

`et_station_config_check` makes such checks at the creation of a station, for the configuration
as a whole (`ConfigOk`).  The setters do not agree with it: some checks are stricter on purpose
(`et_station_setprescale` and `et_station_setcue` know a range of values, and GRAND_CENTRAL is
not changed at all), `et_station_setuser` has no upper bound, and `et_station_setrestore` does
not know `ET_STATION_RESTORE_REDIST`.
-/

namespace EventTransfer

open LinkedHeap StepRun StoreProgram StoreProgram.Prog

/-! ## The setters -/

/-- The block modes by their numbers. -/
def BlockMode.ofCode (v : ℤ) : Option BlockMode :=
  if v = 0 then some .nonblocking else if v = 1 then some .blocking else none

/-- The restore modes by their numbers. -/
def RestoreMode.ofCode (v : ℤ) : Option RestoreMode :=
  if v = 0 then some .out else if v = 1 then some .inn else if v = 2 then some .gc
  else if v = 3 then some .redist else none

/-- What the setters have in common: `valid` is the check of the value, `refuses` the one
against the station's configuration. -/
def setConfig (cfg : SysConfig) (statId : ℤ) (valid : Bool) (refuses : StatConfig → Bool)
    (set : StatConfig → StatConfig) : Prog Stations Ret := do
  if statId = 0 then pure .error
  else if valid = false then pure .error
  else if statId < 0 ∨ (cfg.nstations : ℤ) ≤ statId then pure .error
  else do
    let s ← get
    if refuses (s.config statId.toNat) then pure .error
    else do
      store fun t => { t with
        config := assign t.config (some statId.toNat) (set (t.config statId.toNat)) }
      pure .ok

/-- `et_station_setblock`. -/
def etStationSetblock (cfg : SysConfig) (statId block : ℤ) : Prog Stations Ret :=
  setConfig cfg statId (BlockMode.ofCode block).isSome
    (fun sc => sc.isSharing ∧ BlockMode.ofCode block = some .nonblocking)
    (fun sc => { sc with blockMode := (BlockMode.ofCode block).getD sc.blockMode })

/-- `et_station_setuser`. -/
def etStationSetuser (cfg : SysConfig) (statId user : ℤ) : Prog Stations Ret :=
  setConfig cfg statId (0 ≤ user) (fun _ => false) (fun sc => { sc with userMode := user })

/-- `et_station_setrestore`. -/
def etStationSetrestore (cfg : SysConfig) (statId restore : ℤ) : Prog Stations Ret :=
  setConfig cfg statId
    (RestoreMode.ofCode restore = some .out ∨ RestoreMode.ofCode restore = some .inn ∨
      RestoreMode.ofCode restore = some .gc)
    (fun sc => sc.isSharing ∧ RestoreMode.ofCode restore = some .inn)
    (fun sc => { sc with restoreMode := (RestoreMode.ofCode restore).getD sc.restoreMode })

/-- `et_station_setprescale`. -/
def etStationSetprescale (cfg : SysConfig) (statId prescale : ℤ) : Prog Stations Ret :=
  setConfig cfg statId (1 ≤ prescale) (fun sc => sc.isSharing ∧ prescale ≠ 1)
    (fun sc => { sc with prescale := prescale })

/-- `et_station_setcue`.  The value is checked last. -/
def etStationSetcue (cfg : SysConfig) (statId cue : ℤ) : Prog Stations Ret :=
  setConfig cfg statId true (fun _ => cue < 1 ∨ (cfg.nevents : ℤ) < cue)
    (fun sc => { sc with cue := cue })

/-! ## What they accept -/

/-- The configuration passes `et_station_config_check`. -/
def ConfigOk (cfg : SysConfig) (sc : StatConfig) : Prop := (stationConfigCheck cfg sc).isSome

instance (cfg : SysConfig) (sc : StatConfig) : Decidable (ConfigOk cfg sc) :=
  inferInstanceAs (Decidable (_ = true))

/-- **The check in plain terms.** -/
theorem configOk_iff {cfg : SysConfig} {sc : StatConfig} : ConfigOk cfg sc ↔
    (0 ≤ sc.userMode ∧ sc.userMode ≤ cfg.nattachments) ∧
    (sc.selectMode = .user → 4 ≤ sc.lib.utf8ByteSize ∧ 1 ≤ sc.fname.utf8ByteSize) ∧
    (sc.isSharing → sc.flowMode = .parallel ∧ sc.blockMode = .blocking ∧
      sc.restoreMode ≠ .inn ∧ sc.prescale = 1) ∧
    (sc.restoreMode = .redist → sc.flowMode = .parallel) ∧
    (sc.blockMode = .blocking → 1 ≤ sc.prescale) ∧ (sc.blockMode = .nonblocking → 1 ≤ sc.cue) := by
  obtain ⟨_, flow, user, restore, block, prescale, cue, select, _, fname, lib⟩ := sc
  unfold ConfigOk stationConfigCheck StatConfig.isSharing
  dsimp only
  split
  case isTrue huser =>
    simp only [Option.isSome_none, Bool.false_eq_true, false_iff]
    omega
  case isFalse huser =>
  have huser' : 0 ≤ user ∧ user ≤ cfg.nattachments := by omega
  split
  case isTrue hlib =>
    simp only [Option.isSome_none, Bool.false_eq_true, false_iff]
    rintro ⟨-, hname, -⟩
    have := hname hlib.1
    omega
  case isFalse hlib =>
  have hlib' : select = .user → 4 ≤ lib.utf8ByteSize ∧ 1 ≤ fname.utf8ByteSize := by
    intro hs
    have := not_and.mp hlib hs
    omega
  split
  case isTrue hshare =>
    simp only [Option.isSome_none, Bool.false_eq_true, false_iff]
    rintro ⟨-, -, hs, -⟩
    obtain ⟨rfl, rfl, hin, rfl⟩ := hs hshare.1
    simp [hin] at hshare
  case isFalse hshare =>
  have hshare' : select = .rrobin ∨ select = .equalcue →
      flow = .parallel ∧ block = .blocking ∧ restore ≠ .inn ∧ prescale = 1 := by
    intro hs
    have := not_and.mp hshare hs
    cases flow <;> cases block <;> simp_all
  split
  case isTrue hredist =>
    simp only [Option.isSome_none, Bool.false_eq_true, false_iff]
    rintro ⟨-, -, -, hflow, -⟩
    exact hredist.2 (hflow hredist.1)
  case isFalse hredist =>
  have hredist' : restore = .redist → flow = .parallel := fun hr =>
    not_not.mp (not_and.mp hredist hr)
  cases block with
  | blocking =>
      change Option.isSome (if prescale < 1 then none else some _) = true ↔ _
      split
      · simp only [Option.isSome_none, Bool.false_eq_true, false_iff]
        rintro ⟨-, -, -, -, hpre, -⟩
        have := hpre trivial
        omega
      · exact ⟨fun _ => ⟨huser', hlib', hshare', hredist', fun _ => by omega, nofun⟩, fun _ => rfl⟩
  | nonblocking =>
      change Option.isSome (if cue < 1 then none else if (cfg.nevents : ℤ) < cue then some _
        else some _) = true ↔ _
      split
      · simp only [Option.isSome_none, Bool.false_eq_true, false_iff]
        rintro ⟨-, -, -, -, -, hcue⟩
        have := hcue trivial
        omega
      · have hcue : 1 ≤ cue := by omega
        split
        · exact ⟨fun _ => ⟨huser', hlib', hshare', hredist', nofun, fun _ => hcue⟩, fun _ => rfl⟩
        · exact ⟨fun _ => ⟨huser', hlib', hshare', hredist', nofun, fun _ => hcue⟩, fun _ => rfl⟩

/-- **When a setter succeeds.** -/
theorem setConfig_ok_iff {cfg : SysConfig} {statId : ℤ} {valid : Bool}
    {refuses : StatConfig → Bool} {set : StatConfig → StatConfig} {s : Stations} :
    value (setConfig cfg statId valid refuses set) s = .ok ↔
      (0 < statId ∧ statId < cfg.nstations) ∧ valid = true ∧
        refuses (s.config statId.toNat) = false := by
  unfold setConfig
  split
  case isTrue h0 =>
    refine ⟨fun h => (nomatch h), ?_⟩
    rintro ⟨⟨hpos, -⟩, -⟩
    omega
  case isFalse h0 =>
  split
  case isTrue hvalid =>
    refine ⟨fun h => (nomatch h), ?_⟩
    rintro ⟨-, hok, -⟩
    rw [hvalid] at hok
    cases hok
  case isFalse hvalid =>
  split
  case isTrue hid =>
    refine ⟨fun h => (nomatch h), ?_⟩
    rintro ⟨⟨hpos, hlt⟩, -⟩
    omega
  case isFalse hid =>
  have hvalid' : valid = true := by simpa using hvalid
  rw [value_bind, value_get, final_get]
  split
  case isTrue hrefuse =>
    refine ⟨fun h => (nomatch h), ?_⟩
    rintro ⟨-, -, hno⟩
    rw [hrefuse] at hno
    cases hno
  case isFalse hrefuse =>
    refine ⟨fun _ => ⟨by omega, hvalid', by simpa using hrefuse⟩, fun _ => rfl⟩

section Setters

variable {cfg : SysConfig} {s t : Stations} {gs gs' : List Group} {id ps : ℕ} {v : ℤ}

theorem setConfig_ok_of_station {valid : Bool} {refuses : StatConfig → Bool}
    {set : StatConfig → StatConfig} (hid : 0 < id) (hlt : id < cfg.nstations) :
    value (setConfig cfg id valid refuses set) s = .ok ↔
      valid = true ∧ refuses (s.config id) = false := by
  have hbounds : 0 < (id : ℤ) ∧ (id : ℤ) < cfg.nstations := by omega
  rw [setConfig_ok_iff, Int.toNat_natCast, and_iff_right hbounds]

/-- **What the functions that fill in a configuration see to**: `et_station_config_setcue` and
`et_station_config_setprescale` accept positive numbers only. -/
def Positive (sc : StatConfig) : Prop := 1 ≤ sc.cue ∧ 1 ≤ sc.prescale

instance (sc : StatConfig) : Decidable (Positive sc) := inferInstanceAs (Decidable (_ ∧ _))

/-- A configuration that passes the check, with another block mode. -/
theorem configOk_blockMode {sc : StatConfig} {block : BlockMode} (hok : ConfigOk cfg sc)
    (hpos : Positive sc) : ConfigOk cfg { sc with blockMode := block } ↔
      ¬ (sc.isSharing ∧ block = .nonblocking) := by
  obtain ⟨huser, hlib, hshare, hredist, -, -⟩ := configOk_iff.mp hok
  rw [configOk_iff]
  constructor
  · rintro ⟨-, -, hs, -⟩ ⟨hsharing, rfl⟩
    exact nomatch (hs hsharing).2.1
  · intro hno
    refine ⟨huser, hlib, fun hs => ⟨(hshare hs).1, ?_, (hshare hs).2.2⟩, hredist,
      fun _ => hpos.2, fun _ => hpos.1⟩
    cases block with
    | blocking => rfl
    | nonblocking => exact absurd ⟨hs, rfl⟩ hno

theorem configOk_userMode {sc : StatConfig} (hok : ConfigOk cfg sc) :
    ConfigOk cfg { sc with userMode := v } ↔ 0 ≤ v ∧ v ≤ cfg.nattachments := by
  obtain ⟨-, hrest⟩ := configOk_iff.mp hok
  rw [configOk_iff]
  exact and_iff_left hrest

theorem configOk_restoreMode {sc : StatConfig} {restore : RestoreMode} (hok : ConfigOk cfg sc)
    (hredist : restore ≠ .redist) : ConfigOk cfg { sc with restoreMode := restore } ↔
      ¬ (sc.isSharing ∧ restore = .inn) := by
  obtain ⟨huser, hlib, hshare, -, hblock⟩ := configOk_iff.mp hok
  rw [configOk_iff]
  constructor
  · rintro ⟨-, -, hs, -⟩ ⟨hsharing, rfl⟩
    exact (hs hsharing).2.2.1 rfl
  · intro hno
    refine ⟨huser, hlib, fun hs => ?_, fun hr => absurd hr hredist, hblock⟩
    obtain ⟨hflow, hblocking, -, hpre⟩ := hshare hs
    exact ⟨hflow, hblocking, fun hr => hno ⟨hs, hr⟩, hpre⟩

theorem configOk_prescale {sc : StatConfig} (hok : ConfigOk cfg sc) (hv : 1 ≤ v) :
    ConfigOk cfg { sc with prescale := v } ↔ ¬ (sc.isSharing ∧ v ≠ 1) := by
  obtain ⟨huser, hlib, hshare, hredist, -, hcue⟩ := configOk_iff.mp hok
  rw [configOk_iff]
  constructor
  · rintro ⟨-, -, hs, -⟩ ⟨hsharing, hne⟩
    exact hne (hs hsharing).2.2.2
  · intro hno
    refine ⟨huser, hlib, fun hs => ?_, hredist, fun _ => hv, hcue⟩
    obtain ⟨hflow, hblocking, hin, -⟩ := hshare hs
    exact ⟨hflow, hblocking, hin, not_not.mp fun hne => hno ⟨hs, hne⟩⟩

theorem configOk_cue {sc : StatConfig} (hok : ConfigOk cfg sc) (hv : 1 ≤ v) :
    ConfigOk cfg { sc with cue := v } := by
  obtain ⟨huser, hlib, hshare, hredist, hpre, -⟩ := configOk_iff.mp hok
  exact configOk_iff.mpr ⟨huser, hlib, hshare, hredist, hpre, fun _ => hv⟩

/-- **The setters against the check**, for a station other than GRAND_CENTRAL. -/
theorem setters_ok_iff (hid : 0 < id) (hlt : id < cfg.nstations) (v : ℤ)
    (hok : ConfigOk cfg (s.config id)) (hpos : Positive (s.config id)) :
    (value (etStationSetblock cfg id v) s = .ok ↔ ∃ block, BlockMode.ofCode v = some block ∧
      ConfigOk cfg { s.config id with blockMode := block }) ∧
    (v ≤ cfg.nattachments → (value (etStationSetuser cfg id v) s = .ok ↔
      ConfigOk cfg { s.config id with userMode := v })) ∧
    (RestoreMode.ofCode v ≠ some .redist → (value (etStationSetrestore cfg id v) s = .ok ↔
      ∃ restore, RestoreMode.ofCode v = some restore ∧
        ConfigOk cfg { s.config id with restoreMode := restore })) ∧
    (value (etStationSetprescale cfg id v) s = .ok ↔
      1 ≤ v ∧ ConfigOk cfg { s.config id with prescale := v }) ∧
    (value (etStationSetcue cfg id v) s = .ok ↔
      (1 ≤ v ∧ v ≤ cfg.nevents) ∧ ConfigOk cfg { s.config id with cue := v }) := by
  refine ⟨?_, fun hv => ?_, fun hv => ?_, ?_, ?_⟩
  · rw [etStationSetblock, setConfig_ok_of_station hid hlt]
    cases hcode : BlockMode.ofCode v with
    | none => simp
    | some block => simp [configOk_blockMode hok hpos]
  · rw [etStationSetuser, setConfig_ok_of_station hid hlt, configOk_userMode hok]
    simp [hv]
  · rw [etStationSetrestore, setConfig_ok_of_station hid hlt]
    cases hcode : RestoreMode.ofCode v with
    | none => simp
    | some restore =>
        have hne : restore ≠ .redist := fun h => hv (by rw [hcode, h])
        have hcheck := configOk_restoreMode hok hne
        cases restore <;> simp_all
  · rw [etStationSetprescale, setConfig_ok_of_station hid hlt, decide_eq_true_eq]
    refine and_congr_right fun hv => ?_
    rw [configOk_prescale hok hv]
    simp
  · rw [etStationSetcue, setConfig_ok_of_station hid hlt]
    constructor
    · rintro ⟨-, hrange⟩
      have hv : 1 ≤ v ∧ v ≤ cfg.nevents := by
        rw [decide_eq_false_iff_not] at hrange
        omega
      exact ⟨hv, configOk_cue hok hv.1⟩
    · rintro ⟨hv, -⟩
      refine ⟨rfl, ?_⟩
      rw [decide_eq_false_iff_not]
      omega

/-! ## What a setter leaves -/

/-- A setter that fails changes nothing, and one that succeeds changes one configuration. -/
theorem final_setConfig {valid : Bool} {refuses : StatConfig → Bool} {statId : ℤ}
    {set : StatConfig → StatConfig} :
    final (setConfig cfg statId valid refuses set) s =
      if value (setConfig cfg statId valid refuses set) s = .ok then
        { s with config := assign s.config (some statId.toNat) (set (s.config statId.toNat)) }
      else s := by
  unfold setConfig
  split
  · rfl
  split
  · rfl
  split
  · rfl
  rw [value_bind, final_bind, value_get, final_get]
  split
  · rfl
  · rfl

/-- **One of the setters.** -/
inductive Setter
  | setblock
  | setuser
  | setrestore
  | setprescale
  | setcue
  deriving DecidableEq, Repr

/-- A call of a setter. -/
def Setter.call (cfg : SysConfig) (statId v : ℤ) : Setter → Prog Stations Ret
  | setblock => etStationSetblock cfg statId v
  | setuser => etStationSetuser cfg statId v
  | setrestore => etStationSetrestore cfg statId v
  | setprescale => etStationSetprescale cfg statId v
  | setcue => etStationSetcue cfg statId v

/-- What is kept of a configuration that is changed. -/
structure KeptConfig (cfg : SysConfig) (old new : StatConfig) : Prop where
  ok : ConfigOk cfg new
  positive : Positive new
  compatible : stationCompareParallel old new = true
  flow : new.flowMode = old.flowMode

/-- **A setter keeps a configuration proper**, and compatible with those it was compatible
with; the limit of users is not looked at. -/
theorem Setter.call_keeps {setter : Setter} {statId : ℤ}
    (hlimit : setter = .setuser → v ≤ cfg.nattachments)
    (hok : ConfigOk cfg (s.config statId.toNat)) (hpos : Positive (s.config statId.toNat)) :
    final (setter.call cfg statId v) s = s ∨
      ∃ new, KeptConfig cfg (s.config statId.toNat) new ∧
        final (setter.call cfg statId v) s =
          { s with config := assign s.config (some statId.toNat) new } := by
  have hshare := (configOk_iff.mp hok).2.2.1
  cases setter with
  | setblock =>
      rw [call, etStationSetblock, final_setConfig]
      split
      case isFalse => exact Or.inl rfl
      case isTrue hset =>
        obtain ⟨-, hvalid, hrefuse⟩ := setConfig_ok_iff.mp hset
        obtain ⟨block, hblock⟩ := Option.isSome_iff_exists.mp hvalid
        rw [hblock, decide_eq_false_iff_not, Option.some.injEq] at hrefuse
        rw [hblock, Option.getD_some]
        refine Or.inr ⟨_, ⟨(configOk_blockMode hok hpos).mpr hrefuse, hpos, ?_, rfl⟩, rfl⟩
        refine stationCompareParallel_iff.mpr ⟨rfl, fun hs => ⟨rfl, ?_, rfl⟩⟩
        have hs' : (s.config statId.toNat).isSharing := hs.elim id id
        rw [(hshare hs').2.1]
        cases block with
        | blocking => rfl
        | nonblocking => exact absurd ⟨hs', rfl⟩ hrefuse
  | setuser =>
      rw [call, etStationSetuser, final_setConfig]
      split
      case isFalse => exact Or.inl rfl
      case isTrue hset =>
        obtain ⟨-, hvalid, -⟩ := setConfig_ok_iff.mp hset
        refine Or.inr ⟨_, ⟨(configOk_userMode hok).mpr ⟨of_decide_eq_true hvalid, hlimit rfl⟩, hpos,
          ?_, rfl⟩, rfl⟩
        exact stationCompareParallel_iff.mpr ⟨rfl, fun _ => ⟨rfl, rfl, rfl⟩⟩
  | setrestore =>
      rw [call, etStationSetrestore, final_setConfig]
      split
      case isFalse => exact Or.inl rfl
      case isTrue hset =>
        obtain ⟨-, hvalid, hrefuse⟩ := setConfig_ok_iff.mp hset
        rw [decide_eq_true_eq] at hvalid
        rw [decide_eq_false_iff_not] at hrefuse
        obtain ⟨restore, hrestore, hne⟩ : ∃ restore, RestoreMode.ofCode v = some restore ∧
            restore ≠ .redist := by
          rcases hvalid with h | h | h
          · exact ⟨_, h, nofun⟩
          · exact ⟨_, h, nofun⟩
          · exact ⟨_, h, nofun⟩
        rw [hrestore, Option.some.injEq] at hrefuse
        rw [hrestore, Option.getD_some]
        refine Or.inr ⟨_, ⟨(configOk_restoreMode hok hne).mpr hrefuse, hpos, ?_, rfl⟩, rfl⟩
        exact stationCompareParallel_iff.mpr ⟨rfl, fun _ => ⟨rfl, rfl, rfl⟩⟩
  | setprescale =>
      rw [call, etStationSetprescale, final_setConfig]
      split
      case isFalse => exact Or.inl rfl
      case isTrue hset =>
        obtain ⟨-, hvalid, hrefuse⟩ := setConfig_ok_iff.mp hset
        rw [decide_eq_true_eq] at hvalid
        rw [decide_eq_false_iff_not] at hrefuse
        refine Or.inr ⟨_, ⟨(configOk_prescale hok hvalid).mpr hrefuse, ⟨hpos.1, hvalid⟩, ?_, rfl⟩,
          rfl⟩
        refine stationCompareParallel_iff.mpr ⟨rfl, fun hs => ⟨rfl, rfl, ?_⟩⟩
        have hs' : (s.config statId.toNat).isSharing := hs.elim id id
        rw [(hshare hs').2.2.2]
        exact (not_not.mp fun hne => hrefuse ⟨hs', hne⟩).symm
  | setcue =>
      rw [call, etStationSetcue, final_setConfig]
      split
      case isFalse => exact Or.inl rfl
      case isTrue hset =>
        obtain ⟨-, -, hrefuse⟩ := setConfig_ok_iff.mp hset
        rw [decide_eq_false_iff_not, not_or, not_lt] at hrefuse
        refine Or.inr ⟨_, ⟨configOk_cue hok hrefuse.1, ⟨hrefuse.1, hpos.2⟩, ?_, rfl⟩, rfl⟩
        exact stationCompareParallel_iff.mpr ⟨rfl, fun _ => ⟨rfl, rfl, rfl⟩⟩

/-- Whatever a setter is given, it changes one configuration at most. -/
theorem Setter.final_call (setter : Setter) (statId v : ℤ) (s : Stations) :
    ∃ new, final (setter.call cfg statId v) s =
      { s with config := assign s.config (some statId.toNat) new } := by
  have same : s = { s with
      config := assign s.config (some statId.toNat) (s.config statId.toNat) } := by
    rw [assign_some, Function.update_eq_self]
  have either : ∀ (valid : Bool) (refuses : StatConfig → Bool) (set : StatConfig → StatConfig),
      ∃ new, final (setConfig cfg statId valid refuses set) s =
        { s with config := assign s.config (some statId.toNat) new } := by
    intro valid refuses set
    rw [final_setConfig]
    split
    · exact ⟨_, rfl⟩
    · exact ⟨_, same⟩
  cases setter with
  | setblock => exact either _ _ _
  | setuser => exact either _ _ _
  | setrestore => exact either _ _ _
  | setprescale => exact either _ _ _
  | setcue => exact either _ _ _

end Setters

/-! ## Whole runs -/

/-- A call of `et_station_create_at`, or of a setter. -/
inductive ConfigAct
  | create (fuel : ℕ) (started : Bool) (statName : Option String) (sconfig : Option StatConfig)
      (position parallelposition : ℤ)
  | set (setter : Setter) (statId v : ℤ)

/-- **What a call does**, whether it succeeds or not, if it returns. -/
inductive ConfigStep (cfg : SysConfig) (s : Stations) : ConfigAct → Stations → Prop
  | create {fuel : ℕ} {started : Bool} {statName : Option String} {sconfig : Option StatConfig}
      {position parallelposition : ℤ}
      (returns : value (etStationCreateAt cfg fuel started statName sconfig position
        parallelposition) s ≠ none) :
      ConfigStep cfg s (.create fuel started statName sconfig position parallelposition)
        (final (etStationCreateAt cfg fuel started statName sconfig position
          parallelposition) s)
  | set {setter : Setter} {statId v : ℤ} :
      ConfigStep cfg s (.set setter statId v) (final (setter.call cfg statId v) s)

/-- Stations are created with positive numbers, and no limit of users exceeds the number of
attachments the ET system has room for. -/
def ConfigAct.Proper (cfg : SysConfig) : ConfigAct → Prop
  | .create _ _ _ sconfig _ _ => Positive (sconfig.getD .default)
  | .set setter _ v => setter = .setuser → v ≤ cfg.nattachments

/-- **The station table** from the start of the ET system on. -/
def configs (cfg : SysConfig) : Machine Stations ConfigAct where
  start s := s = .initial cfg
  step s a t := ConfigStep cfg s a t

section Runs

variable {cfg : SysConfig} {s t : Stations} {gs : List Group} {sc sc' : StatConfig}

/-- **The check passes what it has passed.** -/
theorem stationConfigCheck_keeps (he : 0 < cfg.nevents)
    (h : stationConfigCheck cfg sc = some sc') (hpos : Positive sc) :
    ConfigOk cfg sc' ∧ Positive sc' := by
  have hok : ConfigOk cfg sc := by rw [ConfigOk, h, Option.isSome_some]
  -- the cue of a nonblocking station is the only thing it repairs
  have hrepair : sc' = sc ∨ sc' = { sc with cue := cfg.nevents } := by
    unfold stationConfigCheck at h
    iterate 4
      split at h
      · exact nomatch h
    split at h
    · split at h
      · exact nomatch h
      · exact Or.inl (Option.some.inj h).symm
    · split at h
      · exact nomatch h
      split at h
      · exact Or.inr (Option.some.inj h).symm
      · exact Or.inl (Option.some.inj h).symm
  have hcue : (1 : ℤ) ≤ cfg.nevents := by omega
  rcases hrepair with rfl | rfl
  · exact ⟨hok, hpos⟩
  · exact ⟨configOk_cue hok hcue, hcue, hpos.2⟩

/-- **The invariant**: a proper table, in which the configuration of every station in use
passes the check. -/
structure ConfigsOk (cfg : SysConfig) (s : Stations) (gs : List Group) : Prop where
  stations : StationsOk cfg s gs
  config : ∀ i, s.InUse i → ConfigOk cfg (s.config i) ∧ Positive (s.config i)

theorem configsOk_initial (hn : 0 < cfg.nstations) :
    ConfigsOk cfg (.initial cfg) [(0, [])] := by
  refine ⟨stationsOk_initial hn, fun i hi => ?_⟩
  rw [initial_eq hn] at hi ⊢
  by_cases h0 : i = 0
  · subst h0
    dsimp only
    rw [Function.update_self]
    refine ⟨configOk_iff.mpr ⟨?_, nofun, ?_, nofun, ?_, nofun⟩, by decide⟩
    · simp [grandcentralConfig, StatConfig.default, etStationUserMulti]
    · simp [grandcentralConfig, StatConfig.default, StatConfig.isSharing]
    · simp [grandcentralConfig, StatConfig.default, etStationPrescale]
  · rw [Stations.InUse] at hi
    simp [h0, Stations.blank] at hi

/-- A configuration may be replaced by one that is compatible with it. -/
theorem ChainOk.setConfig {config : ℕ → StatConfig} (h : ChainOk s gs)
    (hc : ∀ i ∈ members gs, stationCompareParallel (s.config i) (config i) = true) :
    ChainOk { s with config := config } gs := by
  refine ⟨h.gc, h.main, h.tail, h.group, h.sub, fun g hg hne i hi => ?_, h.nodup⟩
  obtain ⟨hpar, hcmp⟩ := h.compat g hg hne i hi
  have hi' := hc i (mem_members.mpr ⟨g, hg, hi⟩)
  have hg' := hc g.1 (mem_members.mpr ⟨g, hg, by simp⟩)
  refine ⟨?_, ?_⟩
  · rw [Stations.isParallel] at hpar ⊢
    rw [← (stationCompareParallel_iff.mp hi').1]
    exact hpar
  · exact stationCompareParallel_trans (stationCompareParallel_symm hg')
      (stationCompareParallel_trans hcmp hi')

/-- **A setter keeps the invariant.** -/
theorem ConfigsOk.set {setter : Setter} {statId v : ℤ} (h : ConfigsOk cfg s gs)
    (hlimit : setter = .setuser → v ≤ cfg.nattachments) :
    ConfigsOk cfg (final (setter.call cfg statId v) s) gs := by
  have hstations := h.stations
  by_cases hu : s.InUse statId.toNat
  · obtain ⟨hok, hpos⟩ := h.config _ hu
    rcases setter.call_keeps hlimit hok hpos with heq | ⟨new, hkept, heq⟩
    · rw [heq]
      exact h
    · rw [heq]
      refine ⟨⟨hstations.chain.setConfig fun i _ => ?_, hstations.inUse, hstations.unused,
        hstations.bound, hstations.count, hstations.gcName⟩, fun i hi => ?_⟩
      · rw [assign_apply]
        split
        case isTrue heq =>
          obtain rfl := Option.some.inj heq
          exact hkept.compatible
        case isFalse => exact stationCompareParallel_refl _
      · dsimp only
        rw [assign_apply]
        split
        · exact ⟨hkept.ok, hkept.positive⟩
        · exact h.config i hi
  · -- a place that no station is in
    obtain ⟨new, heq⟩ := @Setter.final_call cfg setter statId v s
    rw [heq]
    have hne : ∀ i, s.InUse i → i ≠ statId.toNat := fun i hi heq => hu (heq ▸ hi)
    refine ⟨⟨hstations.chain.congr (fun i hi => ?_) (fun _ _ => rfl) (fun _ _ => rfl)
      (fun _ _ => rfl) (fun _ _ => rfl) rfl, hstations.inUse, hstations.unused, hstations.bound,
      hstations.count, hstations.gcName⟩, fun i hi => ?_⟩
    · exact Function.update_of_ne (hne i ((hstations.inUse i).mp hi)) _ _
    · dsimp only
      rw [assign_some, Function.update_of_ne (hne i hi)]
      exact h.config i hi

/-- **One call keeps the invariant.** -/
theorem ConfigsOk.step {a : ConfigAct} (he : 0 < cfg.nevents) (h : ConfigsOk cfg s gs)
    (hp : a.Proper cfg) (hs : ConfigStep cfg s a t) : ∃ gs', ConfigsOk cfg t gs' := by
  cases hs with
  | create returns =>
      obtain ⟨gs', h', hfrom⟩ := (wp_etStationCreateAt _ _ _ _ _ _ h.stations).2 returns
      refine ⟨gs', h', fun i hi => ?_⟩
      rcases hfrom i hi with ⟨hold, heq⟩ | hcheck
      · rw [heq]
        exact h.config i hold
      · exact stationConfigCheck_keeps he hcheck hp
  | set => exact ⟨gs, h.set hp⟩

theorem configs_ok (hn : 0 < cfg.nstations) (he : 0 < cfg.nevents)
    (h : (configs cfg).Reach (fun _ a => a.Proper cfg) s) : ∃ gs, ConfigsOk cfg s gs := by
  induction h with
  | start h =>
      obtain rfl := h
      exact ⟨_, configsOk_initial hn⟩
  | step a _ hp hs ih =>
      obtain ⟨gs, hgs⟩ := ih
      exact hgs.step he hp hs

/-- The members of a group are compatible with each other. -/
theorem ChainOk.pairwise {g : Group} {i j : ℕ} (h : ChainOk s gs) (hg : g ∈ gs)
    (hi : i ∈ g.1 :: g.2) (hj : j ∈ g.1 :: g.2) :
    stationCompareParallel (s.config i) (s.config j) = true := by
  by_cases hne : g.2 = []
  · rw [hne, List.mem_singleton] at hi hj
    rw [hi, hj]
    exact stationCompareParallel_refl _
  · exact stationCompareParallel_trans (stationCompareParallel_symm (h.compat g hg hne i hi).2)
      (h.compat g hg hne j hj).2

/-- **The setters against the check of the creation.**  On a station that exists and whose
configuration passes the check, with a positive cue and prescale, a setter succeeds exactly
when the configuration with the new value passes the check.  The setter of the cue, in
addition, wants a number of events that there are, the one of the prescale a positive number,
and nothing is said of a limit of users beyond the number of attachments and of
`ET_STATION_RESTORE_REDIST`.  GRAND_CENTRAL is not changed.

So in every run of creations and setter calls, in which stations are created with positive
numbers and no limit of users exceeds the number of attachments, the configuration of every
station passes the check, and the stations of a group are compatible with each other. -/
theorem setters_keep_configs (hn : 0 < cfg.nstations) (he : 0 < cfg.nevents) :
    (∀ (s : Stations) (id : ℕ) (v : ℤ), 0 < id → id < cfg.nstations → ConfigOk cfg (s.config id) →
      Positive (s.config id) →
      (value (etStationSetblock cfg id v) s = .ok ↔ ∃ block, BlockMode.ofCode v = some block ∧
        ConfigOk cfg { s.config id with blockMode := block }) ∧
      (v ≤ cfg.nattachments → (value (etStationSetuser cfg id v) s = .ok ↔
        ConfigOk cfg { s.config id with userMode := v })) ∧
      (RestoreMode.ofCode v ≠ some .redist → (value (etStationSetrestore cfg id v) s = .ok ↔
        ∃ restore, RestoreMode.ofCode v = some restore ∧
          ConfigOk cfg { s.config id with restoreMode := restore })) ∧
      (value (etStationSetprescale cfg id v) s = .ok ↔
        1 ≤ v ∧ ConfigOk cfg { s.config id with prescale := v }) ∧
      (value (etStationSetcue cfg id v) s = .ok ↔
        (1 ≤ v ∧ v ≤ cfg.nevents) ∧ ConfigOk cfg { s.config id with cue := v })) ∧
    (∀ (s : Stations) (setter : Setter) (v : ℤ),
      value (setter.call cfg 0 v) s = .error ∧ final (setter.call cfg 0 v) s = s) ∧
    ∀ s, (configs cfg).Reach (fun _ a => a.Proper cfg) s → ∃ gs, ChainOk s gs ∧
      (∀ i, i ∈ members gs ↔ s.InUse i) ∧ (∀ i, s.InUse i → ConfigOk cfg (s.config i)) ∧
      ∀ g ∈ gs, ∀ i ∈ g.1 :: g.2, ∀ j ∈ g.1 :: g.2,
        stationCompareParallel (s.config i) (s.config j) = true := by
  refine ⟨fun s id v hid hlt hok hpos => setters_ok_iff hid hlt v hok hpos, fun s setter v => ?_,
    fun s hs => ?_⟩
  · cases setter with
    | setblock => exact ⟨rfl, rfl⟩
    | setuser => exact ⟨rfl, rfl⟩
    | setrestore => exact ⟨rfl, rfl⟩
    | setprescale => exact ⟨rfl, rfl⟩
    | setcue => exact ⟨rfl, rfl⟩
  · obtain ⟨gs, hgs⟩ := configs_ok hn he hs
    exact ⟨gs, hgs.stations.chain, hgs.stations.inUse, fun i hi => (hgs.config i hi).1,
      fun g hg i hi j hj => hgs.stations.chain.pairwise hg hi hj⟩

/-- Station `"A"` is created, and its cue is set. -/
theorem setters_keep_configs_example :
    0 < twoStations.nstations ∧ 0 < twoStations.nevents ∧
      ∃ gs, ChainOk (final (etStationSetcue twoStations 1 1)
        (final (createLast "A") (.initial twoStations))) gs := by
  have hcreate : (configs twoStations).Reach (fun _ a => a.Proper twoStations)
      (final (createLast "A") (.initial twoStations)) :=
    .step (.create 3 true (some "A") none etEnd etEnd) (.start rfl)
      (by decide : Positive StatConfig.default) (.create (by decide))
  obtain ⟨gs, hgs, -⟩ := (@setters_keep_configs twoStations (by decide) (by decide)).2.2 _
    (.step (.set .setcue 1 1) hcreate (nofun) .set)
  exact ⟨by decide, by decide, gs, hgs⟩

/-- A nonblocking station. -/
def nonblockingConfig : StatConfig := { StatConfig.default with blockMode := .nonblocking, cue := 1 }

/-- The same, without a prescale. -/
def unscaledConfig : StatConfig := { nonblockingConfig with prescale := 0 }

/-- The table with station `"A"`, which has the configuration `sc`. -/
def tableWith (sc : StatConfig) : Stations :=
  final (etStationCreateAt twoStations 3 true (some "A") (some sc) etEnd etEnd)
    (.initial twoStations)

/-- **Where setters and check part.**  There is one event, and room for one attachment.  A
limit of five users is set, which the check does not pass, and `ET_STATION_RESTORE_REDIST` is
not set for a parallel station.  A cue of two is not set, and a prescale of zero is not set for
a nonblocking station; the check looks at neither.  A nonblocking station without a prescale is
made a blocking one, which the check does not pass.  Nothing is set for GRAND_CENTRAL. -/
theorem setters_differ :
    (value (etStationSetuser twoStations 1 5) (tableWith .default) = .ok ∧
      ConfigOk twoStations ((tableWith .default).config 1) ∧
      ¬ ConfigOk twoStations { (tableWith .default).config 1 with userMode := 5 } ∧
      ¬ ConfigOk twoStations
        ((final (etStationSetuser twoStations 1 5) (tableWith .default)).config 1)) ∧
    (value (etStationSetrestore twoStations 1 3) (tableWith groupableConfig) = .error ∧
      RestoreMode.ofCode 3 = some .redist ∧
      ConfigOk twoStations { (tableWith groupableConfig).config 1 with restoreMode := .redist }) ∧
    (value (etStationSetcue twoStations 1 2) (tableWith .default) = .error ∧
      ConfigOk twoStations { (tableWith .default).config 1 with cue := 2 }) ∧
    (value (etStationSetprescale twoStations 1 0) (tableWith nonblockingConfig) = .error ∧
      ConfigOk twoStations { (tableWith nonblockingConfig).config 1 with prescale := 0 }) ∧
    (value (etStationSetblock twoStations 1 1) (tableWith unscaledConfig) = .ok ∧
      ConfigOk twoStations ((tableWith unscaledConfig).config 1) ∧ BlockMode.ofCode 1 = some .blocking ∧
      ¬ ConfigOk twoStations { (tableWith unscaledConfig).config 1 with blockMode := .blocking }) ∧
    (value (etStationSetcue twoStations 0 1) (tableWith .default) = .error ∧
      ConfigOk twoStations { (tableWith .default).config 0 with cue := 1 }) := by
  decide

end Runs

end EventTransfer
