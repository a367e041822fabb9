import EventTransfer.Event
import EventTransfer.Lib.DoublyLinked

/-!
# Stations

The stations of an ET system are a fixed array in shared memory (`et_station`).  A
station is named here by its place in the array, which is also its `num`; the id `-1`
in a link is `none`.

The array is kept field by field.  Four links place a station: `next` and `prev` in
the main list, `nextparallel` and `prevparallel` in a group of parallel stations.
Only the head of a group is in the main list.
-/

namespace EventTransfer

/-! ## Configurations -/

/-- `ET_STATION_SERIAL` and `ET_STATION_PARALLEL`. -/
inductive FlowMode
  | serial
  | parallel
  deriving DecidableEq, Repr

/-- `ET_STATION_RESTORE_OUT`, `_IN`, `_GC` and `_REDIST`. -/
inductive RestoreMode
  | out
  | inn
  | gc
  | redist
  deriving DecidableEq, Repr

/-- `ET_STATION_NONBLOCKING` and `ET_STATION_BLOCKING`. -/
inductive BlockMode
  | nonblocking
  | blocking
  deriving DecidableEq, Repr

/-- `ET_STATION_SELECT_ALL`, `_MATCH`, `_USER`, `_RROBIN` and `_EQUALCUE`. -/
inductive SelectMode
  | all
  | matching
  | user
  | rrobin
  | equalcue
  deriving DecidableEq, Repr

/-- `ET_STATION_UNUSED`, `_CREATING`, `_IDLE` and `_ACTIVE`. -/
inductive StatStatus
  | unused
  | creating
  | idle
  | active
  deriving DecidableEq, Repr

/-- `et_stat_config`.  `init` says that `et_station_config_init` was called on it. -/
structure StatConfig where
  init : Bool
  flowMode : FlowMode
  userMode : ℤ
  restoreMode : RestoreMode
  blockMode : BlockMode
  prescale : ℤ
  cue : ℤ
  selectMode : SelectMode
  select : List ℤ
  fname : String
  lib : String
  deriving DecidableEq, Repr

/-- `ET_STATION_SELECT_INTS`: the number of integers a station selects by. -/
def etStationSelectInts : ℕ := 6

/-- `ET_STATION_CUE` and `ET_STATION_PRESCALE`. -/
def etStationCue : ℤ := 10

@[inherit_doc etStationCue] def etStationPrescale : ℤ := 1

/-- `ET_STATION_USER_MULTI`. -/
def etStationUserMulti : ℤ := 0

/-- The values `et_station_config_init` and `et_init_station` give a configuration. -/
def StatConfig.default : StatConfig where
  init := true
  flowMode := .serial
  userMode := etStationUserMulti
  restoreMode := .out
  blockMode := .blocking
  prescale := etStationPrescale
  cue := etStationCue
  selectMode := .all
  select := List.replicate etStationSelectInts (-1)
  fname := ""
  lib := ""

/-- The part of `et_sys_config` the stations depend on: the numbers of events, stations
and attachments. -/
structure SysConfig where
  nevents : ℕ
  nstations : ℕ
  nattachments : ℕ
  deriving DecidableEq, Repr

/-- Round-robin and equal-cue groups share out the events among their members. -/
def StatConfig.isSharing (sc : StatConfig) : Prop :=
  sc.selectMode = .rrobin ∨ sc.selectMode = .equalcue

instance (sc : StatConfig) : Decidable sc.isSharing :=
  inferInstanceAs (Decidable (_ ∨ _))

/-- `et_station_config_check`: `none` is the error return.  The only repair it makes is
to the cue of a nonblocking station. -/
def stationConfigCheck (cfg : SysConfig) (sc : StatConfig) : Option StatConfig :=
  if sc.userMode < 0 ∨ (cfg.nattachments : ℤ) < sc.userMode then none
  else if sc.selectMode = .user ∧ (sc.lib.utf8ByteSize < 4 ∨ sc.fname.utf8ByteSize < 1) then
    none
  else if sc.isSharing ∧ (sc.flowMode = .serial ∨ sc.blockMode = .nonblocking ∨
      sc.restoreMode = .inn ∨ sc.prescale ≠ 1) then none
  else if sc.restoreMode = .redist ∧ sc.flowMode ≠ .parallel then none
  else match sc.blockMode with
    | .blocking => if sc.prescale < 1 then none else some sc
    | .nonblocking =>
        if sc.cue < 1 then none
        else if (cfg.nevents : ℤ) < sc.cue then some { sc with cue := cfg.nevents }
        else some sc

/-- `et_station_compare_parallel`: may a station with configuration `config` be in the
group of a station with configuration `group`? -/
def stationCompareParallel (group config : StatConfig) : Bool :=
  if group.flowMode ≠ config.flowMode then false
  else if (group.selectMode = .rrobin ∧ config.selectMode ≠ .rrobin) ∨
      (group.selectMode = .equalcue ∧ config.selectMode ≠ .equalcue) then false
  else if group.isSharing ∧
      (group.blockMode ≠ config.blockMode ∨ group.prescale ≠ config.prescale) then false
  else if ¬ group.isSharing ∧ config.isSharing then false
  else true

/-- **Compatibility in plain terms**: the same flow mode, both sharing in the same way
or neither sharing, and if they share, the same blocking mode and prescale. -/
theorem stationCompareParallel_iff {group config : StatConfig} :
    stationCompareParallel group config = true ↔
      group.flowMode = config.flowMode ∧
      (group.isSharing ∨ config.isSharing →
        group.selectMode = config.selectMode ∧ group.blockMode = config.blockMode ∧
          group.prescale = config.prescale) := by
  obtain ⟨_, gflow, _, _, gblock, gpre, _, gsel, _⟩ := group
  obtain ⟨_, cflow, _, _, cblock, cpre, _, csel, _⟩ := config
  simp only [stationCompareParallel, StatConfig.isSharing]
  by_cases hf : gflow = cflow
  · cases gsel <;> cases csel <;> simp [hf]
  · simp [hf]

/-- Compatibility is an equivalence. -/
theorem stationCompareParallel_refl (a : StatConfig) : stationCompareParallel a a = true := by
  rw [stationCompareParallel_iff]
  exact ⟨rfl, fun _ => ⟨rfl, rfl, rfl⟩⟩

@[inherit_doc stationCompareParallel_refl]
theorem stationCompareParallel_symm {a b : StatConfig} (h : stationCompareParallel a b = true) :
    stationCompareParallel b a = true := by
  rw [stationCompareParallel_iff] at h ⊢
  obtain ⟨hflow, hshare⟩ := h
  refine ⟨hflow.symm, fun hs => ?_⟩
  obtain ⟨h1, h2, h3⟩ := hshare hs.symm
  exact ⟨h1.symm, h2.symm, h3.symm⟩

@[inherit_doc stationCompareParallel_refl]
theorem stationCompareParallel_trans {a b c : StatConfig}
    (hab : stationCompareParallel a b = true) (hbc : stationCompareParallel b c = true) :
    stationCompareParallel a c = true := by
  rw [stationCompareParallel_iff] at hab hbc ⊢
  obtain ⟨hflow, hshare⟩ := hab
  obtain ⟨hflow', hshare'⟩ := hbc
  refine ⟨hflow.trans hflow', fun hs => ?_⟩
  have hb : b.isSharing := by
    rcases hs with ha | hc
    · have := (hshare (Or.inl ha)).1
      exact (by rw [StatConfig.isSharing, ← this]; exact ha)
    · have := (hshare' (Or.inr hc)).1
      exact (by rw [StatConfig.isSharing, this]; exact hc)
  obtain ⟨h1, h2, h3⟩ := hshare (Or.inr hb)
  obtain ⟨h1', h2', h3'⟩ := hshare' (Or.inl hb)
  exact ⟨h1.trans h1', h2.trans h2', h3.trans h3'⟩

/-! ## The station table -/

/-- `f` with `v` stored at `p`.  A store through the id `-1` falls outside the station
array; it changes no station. -/
def assign {β : Type} (f : ℕ → β) (p : Option ℕ) (v : β) : ℕ → β :=
  match p with
  | some i => Function.update f i v
  | none => f

@[simp] theorem assign_some {β : Type} (f : ℕ → β) (i : ℕ) (v : β) :
    assign f (some i) v = Function.update f i v := rfl

@[simp] theorem assign_none {β : Type} (f : ℕ → β) (v : β) : assign f none v = f := rfl

theorem assign_apply {β : Type} (f : ℕ → β) (p : Option ℕ) (v : β) (i : ℕ) :
    assign f p v i = if p = some i then v else f i := by
  cases p with
  | none => simp
  | some j => simp [Function.update_apply, eq_comm]

theorem assign_of_ne {β : Type} {f : ℕ → β} {p : Option ℕ} {v : β} {i : ℕ} (h : ¬ p = some i) :
    assign f p v i = f i := by
  rw [assign_apply, if_neg h]

/-- The array of stations, and what the system keeps about it: the last station of the
main list (`stat_tail`) and the number of stations. -/
structure Stations where
  name : ℕ → String
  config : ℕ → StatConfig
  status : ℕ → StatStatus
  nattachments : ℕ → ℤ
  next : ℕ → Option ℕ
  prev : ℕ → Option ℕ
  nextparallel : ℕ → Option ℕ
  prevparallel : ℕ → Option ℕ
  waslast : ℕ → Bool
  statTail : Option ℕ
  nstations : ℤ

namespace Stations

/-- `et_init_station`, as far as the station table goes; the station's two lists and its
attachment array are reset with it. -/
def initStation (s : Stations) (i : ℕ) : Stations where
  name := Function.update s.name i ""
  config := Function.update s.config i .default
  status := Function.update s.status i .unused
  nattachments := Function.update s.nattachments i 0
  next := Function.update s.next i none
  prev := Function.update s.prev i none
  nextparallel := Function.update s.nextparallel i none
  prevparallel := Function.update s.prevparallel i none
  waslast := Function.update s.waslast i false
  statTail := s.statTail
  nstations := s.nstations

/-- `ps->config.flow_mode == ET_STATION_PARALLEL`. -/
def isParallel (s : Stations) (i : ℕ) : Bool := (s.config i).flowMode = .parallel

/-- The station exists: it is `ET_STATION_IDLE` or `ET_STATION_ACTIVE`. -/
def InUse (s : Stations) (i : ℕ) : Prop := s.status i = .idle ∨ s.status i = .active

instance (s : Stations) (i : ℕ) : Decidable (s.InUse i) :=
  inferInstanceAs (Decidable (_ ∨ _))

/-- The table of a fresh ET system: every station initialised, `stat_head` and
`stat_tail` set to GRAND_CENTRAL. -/
def blank : Stations where
  name _ := ""
  config _ := .default
  status _ := .unused
  nattachments _ := 0
  next _ := none
  prev _ := none
  nextparallel _ := none
  prevparallel _ := none
  waslast _ := false
  statTail := some 0
  nstations := 0

end Stations

end EventTransfer
