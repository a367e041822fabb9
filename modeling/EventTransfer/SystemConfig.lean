import EventTransfer.RemoteCall
import EventTransfer.Snapshot
import EventTransfer.Lib.StepRun
import EventTransfer.Lib.Blocks

/-!
# The configuration of an ET system

A configuration is made by `et_system_config_init` and changed by the `et_system_config_set…`
calls.  `et_system_start` checks it once more (`et_system_config_check`), and GRAND_CENTRAL is
then filled with the events, which are numbered by groups.

* `SysCall` lists the calls, `EtSysConfig.serve` is what each does.
* `Intended` is the documentation's side: the number of events and the groups of the calls that
  are documented to succeed.  The sum of the groups "must equal the total number of events".
* `SysCall.Sound` — the condition on a call: one group is not set to the number of events the
  configuration has already, an array that is refused writes nothing, and the sum of the groups
  does not wrap around to the number of events.
* `configuration_handlesGroups` — in a run of such calls the check accepts what was intended if
  it is as documented, and what it accepts is numbered as the groups say.
-/

namespace EventTransfer

open StepRun Wire

/-! ## The calls -/

/-- `ET_EVENT_GROUPS_MAX`. -/
def etEventGroupsMax : ℕ := 5000

/-- `ET_PROCESSES_MAX`. -/
def etProcessesMax : ℕ := etAttachmentsMax

/-- `et_sys_config`.  `groups` is the array and what lies behind it. -/
structure EtSysConfig where
  eventSize : ℕ
  nevents : ℤ
  ntemps : ℤ
  nstations : ℤ
  nprocesses : ℤ
  nattachments : ℤ
  groupCount : ℕ
  groups : ℕ → ℤ
  filename : String
  port : ℤ
  serverport : ℤ
  tcpSendBufSize : ℤ
  tcpRecvBufSize : ℤ
  tcpNoDelay : ℤ

/-- `et_system_config_init`. -/
def etSystemConfigInit : EtSysConfig where
  eventSize := 1000
  nevents := 300
  ntemps := 300
  nstations := 200
  nprocesses := etProcessesMax
  nattachments := etAttachmentsMax
  groupCount := 1
  groups := Function.update (fun _ => 0) 0 300
  filename := ""
  port := 11111
  serverport := 11111
  tcpSendBufSize := 0
  tcpRecvBufSize := 0
  tcpNoDelay := 1

namespace EtSysConfig

/-- What the setters have in common: a value that is refused changes nothing. -/
def setChecked (sc : EtSysConfig) (accepted : Bool) (set : EtSysConfig → EtSysConfig) :
    EtSysConfig × Word :=
  if accepted then (set sc, etOk) else (sc, etError)

/-- `et_system_config_setevents`. -/
def setevents (sc : EtSysConfig) (val : Word) : EtSysConfig × Word :=
  sc.setChecked (1 ≤ val.toInt) fun sc => { sc with
    nevents := val.toInt
    -- "if only 1 group (usual case), put all events into that group"
    groups := if sc.groupCount = 1 then Function.update sc.groups 0 val.toInt else sc.groups
    -- "number of temp events can't be more than the number of events"
    ntemps := if val.toInt < sc.ntemps then val.toInt else sc.ntemps }

/-- `et_system_config_setsize`. -/
def setsize (sc : EtSysConfig) (val : BitVec 64) : EtSysConfig × Word :=
  sc.setChecked (1 ≤ val.toNat) fun sc => { sc with eventSize := val.toNat }

/-- `et_system_config_settemps`. -/
def settemps (sc : EtSysConfig) (val : Word) : EtSysConfig × Word :=
  sc.setChecked (1 ≤ val.toInt ∧ val.toInt ≤ sc.nevents) fun sc => { sc with ntemps := val.toInt }

/-- `et_system_config_setstations`. -/
def setstations (sc : EtSysConfig) (val : Word) : EtSysConfig × Word :=
  sc.setChecked (1 ≤ val.toInt) fun sc => { sc with nstations := val.toInt }

/-- `et_system_config_setprocs`. -/
def setprocs (sc : EtSysConfig) (val : Word) : EtSysConfig × Word :=
  sc.setChecked (1 ≤ val.toInt) fun sc => { sc with nprocesses := min val.toInt etProcessesMax }

/-- `et_system_config_setattachments`. -/
def setattachments (sc : EtSysConfig) (val : Word) : EtSysConfig × Word :=
  sc.setChecked (1 ≤ val.toInt) fun sc =>
    { sc with nattachments := min val.toInt etAttachmentsMax }

/-- `et_system_config_setport`. -/
def setport (sc : EtSysConfig) (val : Word) : EtSysConfig × Word :=
  sc.setChecked (1024 ≤ val.toInt ∧ val.toInt ≤ 65535) fun sc => { sc with port := val.toInt }

/-- `et_system_config_setserverport`. -/
def setserverport (sc : EtSysConfig) (val : Word) : EtSysConfig × Word :=
  sc.setChecked (1024 ≤ val.toInt ∧ val.toInt ≤ 65535) fun sc =>
    { sc with serverport := val.toInt }

/-- `et_system_config_settcp`. -/
def settcp (sc : EtSysConfig) (rBufSize sBufSize noDelay : Word) : EtSysConfig × Word :=
  sc.setChecked (0 ≤ rBufSize.toInt ∧ 0 ≤ sBufSize.toInt) fun sc => { sc with
    tcpRecvBufSize := rBufSize.toInt
    tcpSendBufSize := sBufSize.toInt
    tcpNoDelay := if noDelay = 0 then 0 else 1 }

/-- `et_system_config_setfile`; `none` is a null pointer. -/
def setfile (sc : EtSysConfig) (val : Option String) : EtSysConfig × Word :=
  sc.setChecked (val.any fun name => name.utf8ByteSize ≤ etFilenameLength - 1) fun sc =>
    { sc with filename := val.getD sc.filename }

/-- The loop of `et_system_config_setgroups` over the array that is given: `n` elements are
left, from `i` on. -/
def copyGroups (groups : ℕ → Word) : ℕ → ℕ → EtSysConfig → EtSysConfig × Word
  | 0, _, sc => (sc, etOk)
  | n + 1, i, sc =>
      if (groups i).toInt < 1 then (sc, etError)
      else copyGroups groups n (i + 1)
        { sc with groups := Function.update sc.groups i (groups i).toInt }

/-- The loops that clear `sc->groups` from `i` on. -/
def clearGroups (sc : EtSysConfig) (i : ℕ) : EtSysConfig :=
  { sc with groups := fun k => if i ≤ k ∧ k < etEventGroupsMax then 0 else sc.groups k }

/-- `et_system_config_setgroups`; `none` is a null pointer. -/
def setgroups (sc : EtSysConfig) (groups : Option (ℕ → Word)) (size : Word) :
    EtSysConfig × Word :=
  if size.toInt = 1 then ({ sc.clearGroups 0 with groupCount := 1 }, etOk)
  else
    match groups with
    | none => (sc, etError)
    | some groups =>
        if etEventGroupsMax < size.toInt ∨ size.toInt < 1 then (sc, etError)
        else
          let (sc, status) := copyGroups groups size.toInt.toNat 0 sc
          if status = etError then (sc, status)
          else ({ sc.clearGroups size.toInt.toNat with groupCount := size.toInt.toNat }, etOk)

end EtSysConfig

/-- **The calls** that set something. -/
inductive SysCall
  | setevents (val : Word)
  | setsize (val : BitVec 64)
  | settemps (val : Word)
  | setstations (val : Word)
  | setprocs (val : Word)
  | setattachments (val : Word)
  | setport (val : Word)
  | setserverport (val : Word)
  | settcp (rBufSize sBufSize noDelay : Word)
  | setfile (val : Option String)
  | setgroups (groups : Option (ℕ → Word)) (size : Word)

/-- What a call does, and what it returns. -/
def EtSysConfig.serve (sc : EtSysConfig) : SysCall → EtSysConfig × Word
  | .setevents val => sc.setevents val
  | .setsize val => sc.setsize val
  | .settemps val => sc.settemps val
  | .setstations val => sc.setstations val
  | .setprocs val => sc.setprocs val
  | .setattachments val => sc.setattachments val
  | .setport val => sc.setport val
  | .setserverport val => sc.setserverport val
  | .settcp rBufSize sBufSize noDelay => sc.settcp rBufSize sBufSize noDelay
  | .setfile val => sc.setfile val
  | .setgroups groups size => sc.setgroups groups size

/-! ## The start of the system -/

/-- The value of an `int` that was to be `v`. -/
def asInt (v : ℤ) : ℤ := v.bmod (2 ^ 32)

/-- The number of events in each of the groups. -/
def EtSysConfig.groupSizes (sc : EtSysConfig) : List ℤ := (List.range sc.groupCount).map sc.groups

/-- `et_system_config_check`: the first check that fails is logged.  The sum of the groups is an
`int`. -/
def etSystemConfigCheck (config : EtSysConfig) : Except String Unit :=
  if config.nevents < 1 then .error "bad value for number of events"
  else if config.eventSize < 1 then .error "bad value for event size"
  else if config.groupSizes.foldl (fun count size => asInt (count + size)) 0 ≠ config.nevents then
    .error "events in groups != total event number"
  else if config.ntemps < 1 then .error "bad value for number of temp events"
  else if config.nevents < config.ntemps then .error "ntemps cannot be larger than nevents"
  else if config.nstations < 1 then .error "bad value for number of stations"
  else if config.nattachments < 1 then .error "bad value for number of attachments"
  else if etAttachmentsMax < config.nattachments then
    .error "# of attachments is too large, increase ET_ATTACHMENTS_MAX and recompile"
  else if config.nprocesses < 1 then .error "bad value for number of processes"
  else if etProcessesMax < config.nprocesses then
    .error "# of processes is too large, increase ET_ATTACHMENTS_MAX and recompile"
  else .ok ()

/-- The group numbers that `et_grandcentral_station_create` gives the events, in their order. -/
def EtSysConfig.eventGroups (sc : EtSysConfig) : List ℕ :=
  Blocks.countDown sc.groups sc.nevents.toNat 0 0

/-! ## What is intended -/

/-- **What the calls ask for**, as they are documented: the number of events, and the groups if
they have been set. -/
structure Intended where
  events : ℤ
  groups : Option (List ℤ)

/-- The first elements of an array of `int`. -/
def arraySizes (groups : ℕ → Word) (size : ℕ) : List ℤ :=
  (List.range size).map fun i => (groups i).toInt

/-- What a call adds to it.  Groups are refused "if groups == NULL or element of group < 1; if
size > ET_EVENT_GROUPS_MAX or < 1". -/
def Intended.ask (intended : Intended) : SysCall → Intended
  | .setevents val => if 1 ≤ val.toInt then { intended with events := val.toInt } else intended
  | .setgroups (some groups) size =>
      if (1 ≤ size.toInt ∧ size.toInt ≤ etEventGroupsMax) ∧
          ∀ g ∈ arraySizes groups size.toInt.toNat, 1 ≤ g then
        { intended with groups := some (arraySizes groups size.toInt.toNat) }
      else intended
  | _ => intended

/-- Without groups all events are in one. -/
def Intended.sizes (intended : Intended) : List ℤ := intended.groups.getD [intended.events]

/-- **As documented**: "the sum of the first size elements must equal the total number of events
in the system". -/
def Intended.Documented (intended : Intended) : Prop := intended.sizes.sum = intended.events

instance (intended : Intended) : Decidable intended.Documented :=
  inferInstanceAs (Decidable (_ = _))

/-- The state of a run. -/
structure ConfigState where
  config : EtSysConfig
  intended : Intended

def ConfigState.serve (state : ConfigState) (call : SysCall) : ConfigState :=
  ⟨(state.config.serve call).1, state.intended.ask call⟩

/-- **Any sequence of calls**, from a new configuration on. -/
def configMachine : Machine ConfigState SysCall :=
  .ofStep (· = ⟨etSystemConfigInit, ⟨300, none⟩⟩) fun state call => some (state.serve call)

/-- **The events are numbered as the sizes say**: there are `nevents`, the group `k + 1` has
`sizes[k]` of them, and there are no others. -/
structure NumberedBy (numbers : List ℕ) (nevents : ℤ) (sizes : List ℤ) : Prop where
  total : (numbers.length : ℤ) = nevents
  each : ∀ k (h : k < sizes.length), (numbers.count (k + 1) : ℤ) = sizes[k]
  range : ∀ g ∈ numbers, 1 ≤ g ∧ g ≤ sizes.length

/-- **The property of a state**: a configuration that was intended as documented is accepted and
its events are in the groups that were asked for, and no other is accepted than one whose events
are in its groups. -/
structure ConfigState.HandlesGroups (state : ConfigState) : Prop where
  accepts : state.intended.Documented → etSystemConfigCheck state.config = .ok () ∧
    NumberedBy state.config.eventGroups state.intended.events state.intended.sizes
  numbers : etSystemConfigCheck state.config = .ok () →
    NumberedBy state.config.eventGroups state.config.nevents state.config.groupSizes

/-- The sum as an `int` is the number of events only if the sum is. -/
def AddsUp (nevents : ℤ) (sizes : List ℤ) : Prop := asInt sizes.sum = nevents → sizes.sum = nevents

instance (nevents : ℤ) (sizes : List ℤ) : Decidable (AddsUp nevents sizes) :=
  inferInstanceAs (Decidable (_ → _))

/-- **The condition on a call.**  One group is given with an array, and not with the number of
events there is already; an array that is refused has nothing new before the element it is
refused for; and the groups add up. -/
def SysCall.Sound (state : ConfigState) : SysCall → Prop
  | .setgroups none size => size.toInt ≠ 1
  | .setgroups (some groups) size =>
      if size.toInt = 1 then 1 ≤ (groups 0).toInt ∧ (groups 0).toInt ≠ state.config.nevents
      else if size.toInt ≤ etEventGroupsMax then
        if ∀ g ∈ arraySizes groups size.toInt.toNat, 1 ≤ g then
          AddsUp state.config.nevents (arraySizes groups size.toInt.toNat)
        else ∀ i < size.toInt.toNat, (∀ j ≤ i, 1 ≤ (groups j).toInt) →
          (groups i).toInt = state.config.groups i
      else True
  | .setevents val =>
      1 ≤ val.toInt → state.config.groupCount ≠ 1 → AddsUp val.toInt state.config.groupSizes
  | _ => True

/-! ### The check -/

theorem asInt_of_lt {v : ℤ} (hle : -(2 ^ 31) ≤ v) (hlt : v < 2 ^ 31) : asInt v = v :=
  Int.bmod_eq_of_le (by norm_num; exact hle) (by norm_num; exact hlt)

/-- The sum of the groups. -/
theorem foldl_asInt (sizes : List ℤ) (count : ℤ) :
    sizes.foldl (fun count size => asInt (count + size)) (asInt count) =
      asInt (count + sizes.sum) := by
  induction sizes generalizing count with
  | nil => rw [List.sum_nil, add_zero]; rfl
  | cons size sizes ih =>
      have hnext : asInt (asInt count + size) = asInt (count + size) := Int.bmod_add_bmod
      rw [List.foldl_cons, hnext, ih, List.sum_cons, add_assoc]

/-- **The other values are as they should be** after any calls. -/
structure EtSysConfig.InRange (sc : EtSysConfig) : Prop where
  nevents : 1 ≤ sc.nevents ∧ sc.nevents < 2 ^ 31
  eventSize : 1 ≤ sc.eventSize ∧ sc.eventSize < 2 ^ 64
  ntemps : 1 ≤ sc.ntemps ∧ sc.ntemps ≤ sc.nevents
  nstations : 1 ≤ sc.nstations ∧ sc.nstations < 2 ^ 31
  nattachments : 1 ≤ sc.nattachments ∧ sc.nattachments ≤ etAttachmentsMax
  nprocesses : 1 ≤ sc.nprocesses ∧ sc.nprocesses ≤ etProcessesMax

/-- Only the groups can be refused. -/
theorem EtSysConfig.InRange.check_iff {sc : EtSysConfig} (h : sc.InRange) :
    etSystemConfigCheck sc = .ok () ↔ asInt sc.groupSizes.sum = sc.nevents := by
  obtain ⟨⟨hev, -⟩, ⟨hsize, -⟩, ⟨htemps, hcap⟩, ⟨hstat, -⟩, ⟨hatt, hatts⟩, ⟨hproc, hprocs⟩⟩ := h
  have hsum : sc.groupSizes.foldl (fun count size => asInt (count + size)) 0 =
      asInt sc.groupSizes.sum := by
    have := foldl_asInt sc.groupSizes 0
    rwa [zero_add] at this
  rw [etSystemConfigCheck, if_neg (not_lt.mpr hev), if_neg (not_lt.mpr hsize), hsum]
  by_cases hok : asInt sc.groupSizes.sum = sc.nevents
  · rw [if_neg (not_not.mpr hok), if_neg (not_lt.mpr htemps), if_neg (not_lt.mpr hcap),
      if_neg (not_lt.mpr hstat), if_neg (not_lt.mpr hatt), if_neg (not_lt.mpr hatts),
      if_neg (not_lt.mpr hproc), if_neg (not_lt.mpr hprocs)]
    exact iff_of_true rfl hok
  · rw [if_pos hok]
    exact iff_of_false nofun hok

/-! ### The numbers of the events -/

/-- **The start-up loop**, where the groups add up. -/
theorem EtSysConfig.numberedBy {sc : EtSysConfig} (hpos : ∀ g ∈ sc.groupSizes, 1 ≤ g)
    (hsum : sc.groupSizes.sum = sc.nevents) :
    NumberedBy sc.eventGroups sc.nevents sc.groupSizes := by
  let sizes := sc.groupSizes.map Int.toNat
  have hcast : sizes.map (fun n : ℕ => (n : ℤ)) = sc.groupSizes := by
    rw [List.map_map]
    conv_rhs => rw [← List.map_id sc.groupSizes]
    refine List.map_congr_left fun g hg => ?_
    have := hpos g hg
    simp only [Function.comp_apply, id_eq]
    omega
  have hlen : sizes.length = sc.groupSizes.length := List.length_map _
  have htotal : ((sizes.sum : ℕ) : ℤ) = sc.nevents := by
    rw [← hsum, ← hcast, Nat.cast_list_sum]
  have hgroups : ∀ i (h : i < sizes.length), sc.groups (0 + i) = sizes[i] ∧ 0 < sizes[i] := by
    intro i h
    have hi : i < sc.groupSizes.length := hlen ▸ h
    have hg : sc.groupSizes[i] = sc.groups i := by simp [groupSizes]
    have h1 := hpos _ (List.getElem_mem hi)
    have hn : sizes[i] = sc.groupSizes[i].toNat := List.getElem_map _
    rw [hn, zero_add, ← hg]
    omega
  have hnumbers : sc.eventGroups = Blocks.number 1 sizes := by
    have hn : sc.nevents.toNat = sizes.sum := by omega
    rw [eventGroups, hn, Blocks.countDown_eq sc.groups 0 sizes hgroups]
  rw [hnumbers]
  refine ⟨?_, fun k hk => ?_, fun g hg => ?_⟩
  · rw [Blocks.length_number, htotal]
  · have hk' : k < sizes.length := hlen ▸ hk
    have hg : (sizes[k] : ℤ) = sc.groupSizes[k] := by
      have h1 := hpos _ (List.getElem_mem hk)
      have hn : sizes[k] = sc.groupSizes[k].toNat := List.getElem_map _
      omega
    rw [add_comm k 1, Blocks.count_number 1 sizes k hk', hg]
  · obtain ⟨hle, hlt⟩ := Blocks.mem_number hg
    omega

/-! ### What the calls keep -/

section Calls

variable {sc : EtSysConfig} {groups : ℕ → Word} {n i : ℕ}

/-- An array of positive elements is copied. -/
theorem EtSysConfig.copyGroups_of_pos (h : ∀ j < n, 1 ≤ (groups (i + j)).toInt) :
    copyGroups groups n i sc =
      ({ sc with groups := fun k =>
          if i ≤ k ∧ k < i + n then (groups k).toInt else sc.groups k }, etOk) := by
  induction n generalizing i sc with
  | zero =>
      have hnone : (fun k => if i ≤ k ∧ k < i + 0 then (groups k).toInt else sc.groups k) =
          sc.groups := by
        ext k
        exact if_neg (by omega)
      rw [copyGroups, hnone]
  | succ n ih =>
      have hi : 1 ≤ (groups i).toInt := h 0 (Nat.succ_pos n)
      have hrest : ∀ j < n, 1 ≤ (groups (i + 1 + j)).toInt := fun j hj => by
        have := h (j + 1) (Nat.succ_lt_succ hj)
        rwa [← Nat.add_assoc, Nat.add_right_comm] at this
      rw [copyGroups, if_neg (not_lt.mpr hi), ih hrest]
      congr 2
      ext k
      rcases eq_or_ne k i with rfl | hk
      · rw [if_neg (by omega), if_pos (by omega)]
        exact Function.update_self ..
      · have hupdate : Function.update sc.groups i (groups i).toInt k = sc.groups k :=
          Function.update_of_ne hk ..
        have hrange : (i + 1 ≤ k ∧ k < i + 1 + n) ↔ (i ≤ k ∧ k < i + (n + 1)) := by omega
        simp only [hupdate, hrange]

/-- An array that has nothing new before the element it is refused for is not copied. -/
theorem EtSysConfig.copyGroups_of_refused (hbad : ∃ j < n, (groups (i + j)).toInt < 1)
    (hsame : ∀ j < n, (∀ k ≤ j, 1 ≤ (groups (i + k)).toInt) →
      (groups (i + j)).toInt = sc.groups (i + j)) :
    copyGroups groups n i sc = (sc, etError) := by
  induction n generalizing i with
  | zero => exact absurd hbad (by rintro ⟨j, hj, -⟩; cases hj)
  | succ n ih =>
      rw [copyGroups]
      split
      · rfl
      case isFalse hi =>
        have hi' : 1 ≤ (groups i).toInt := not_lt.mp hi
        have hkeep : (groups i).toInt = sc.groups i := by
          refine hsame 0 (Nat.succ_pos n) fun k hk => ?_
          rw [Nat.le_zero.mp hk]
          exact hi'
        have hsc : { sc with groups := Function.update sc.groups i (groups i).toInt } = sc := by
          rw [hkeep, Function.update_eq_self]
        rw [hsc]
        refine ih ?_ fun j hj hpos => ?_
        · obtain ⟨j, hj, hlt⟩ := hbad
          cases j with
          | zero => exact absurd hlt hi
          | succ j =>
              refine ⟨j, Nat.lt_of_succ_lt_succ hj, ?_⟩
              rwa [← Nat.add_assoc, Nat.add_right_comm] at hlt
        · have hshift : i + 1 + j = i + (j + 1) := by omega
          rw [hshift]
          refine hsame (j + 1) (Nat.succ_lt_succ hj) fun k hk => ?_
          cases k with
          | zero => exact hi'
          | succ k =>
              have := hpos k (Nat.le_of_succ_le_succ hk)
              rwa [Nat.add_right_comm] at this

end Calls

/-- **One group**, which has all events unless another number was asked for. -/
structure OneGroup (sc : EtSysConfig) (intended : Intended) : Prop where
  count : sc.groupCount = 1
  asked : ∀ sizes, intended.groups = some sizes → ∃ g, sizes = [g]
  events : sc.groups 0 = sc.nevents ∨ sc.groups 0 = 0 ∧ ¬ intended.Documented

/-- **Several groups**, as they were asked for. -/
structure SeveralGroups (sc : EtSysConfig) (intended : Intended) : Prop where
  count : sc.groupCount ≠ 1
  asked : intended.groups = some sc.groupSizes
  pos : ∀ g ∈ sc.groupSizes, 1 ≤ g
  addsUp : AddsUp sc.nevents sc.groupSizes

/-- **The invariant** of the calls. -/
structure ConfigState.Kept (state : ConfigState) : Prop where
  events : state.intended.events = state.config.nevents
  inRange : state.config.InRange
  groups : OneGroup state.config state.intended ∨ SeveralGroups state.config state.intended

theorem groupSizes_of_one {sc : EtSysConfig} (h : sc.groupCount = 1) :
    sc.groupSizes = [sc.groups 0] := by
  rw [EtSysConfig.groupSizes, h]
  rfl

/-- One group that was asked for as documented has all the events. -/
theorem OneGroup.sizes_eq {sc : EtSysConfig} {intended : Intended} (h : OneGroup sc intended)
    (hdoc : intended.Documented) : intended.sizes = [intended.events] := by
  unfold Intended.Documented Intended.sizes at hdoc
  unfold Intended.sizes
  cases hg : intended.groups with
  | none => rfl
  | some sizes =>
      obtain ⟨g, rfl⟩ := h.asked sizes hg
      rw [hg, Option.getD_some, List.sum_singleton] at hdoc
      rw [Option.getD_some, hdoc]

/-- **The property from the invariant.** -/
theorem ConfigState.Kept.handlesGroups {state : ConfigState} (h : state.Kept) :
    state.HandlesGroups := by
  obtain ⟨hevents, hrange, hgroups⟩ := h
  obtain ⟨hlo, hhi⟩ := hrange.nevents
  have hint : asInt state.config.nevents = state.config.nevents :=
    asInt_of_lt (le_trans (by norm_num) hlo) hhi
  rcases hgroups with hone | hmany
  · have hsizes := groupSizes_of_one hone.count
    have hnumbers (hall : state.config.groups 0 = state.config.nevents) :
        NumberedBy state.config.eventGroups state.config.nevents state.config.groupSizes := by
      refine EtSysConfig.numberedBy ?_ ?_
      · rw [hsizes, hall]
        intro g hg
        rwa [List.mem_singleton.mp hg]
      · rw [hsizes, List.sum_singleton, hall]
    constructor
    · intro hdoc
      have hall : state.config.groups 0 = state.config.nevents :=
        hone.events.resolve_right fun hno => hno.2 hdoc
      rw [hone.sizes_eq hdoc, hevents, hrange.check_iff, hsizes, List.sum_singleton, hall]
      refine ⟨hint, ?_⟩
      have := hnumbers hall
      rwa [hsizes, hall] at this
    · intro hok
      rw [hrange.check_iff, hsizes, List.sum_singleton] at hok
      refine hnumbers (hone.events.resolve_right fun hno => ?_)
      rw [hno.1] at hok
      have hzero : asInt 0 = 0 := rfl
      omega
  · have hsizes : state.intended.sizes = state.config.groupSizes := by
      rw [Intended.sizes, hmany.asked, Option.getD_some]
    constructor
    · intro hdoc
      have hsum : state.config.groupSizes.sum = state.config.nevents := by
        rw [← hsizes, ← hevents]
        exact hdoc
      rw [hsizes, hevents, hrange.check_iff, hsum]
      exact ⟨hint, EtSysConfig.numberedBy hmany.pos hsum⟩
    · intro hok
      exact EtSysConfig.numberedBy hmany.pos (hmany.addsUp (hrange.check_iff.mp hok))

/-! ### One call -/

section Step

variable {sc : EtSysConfig} {intended : Intended}

theorem EtSysConfig.setChecked_fst (accepted : Bool) (set : EtSysConfig → EtSysConfig) :
    (sc.setChecked accepted set).1 = if accepted then set sc else sc := by
  unfold setChecked
  split
  · rfl
  · rfl

theorem EtSysConfig.InRange.withGroups (h : sc.InRange) (count : ℕ) (groups : ℕ → ℤ) :
    InRange { sc with groupCount := count, groups } :=
  { h with }

/-- A setter of one value keeps what holds if what it sets does. -/
theorem EtSysConfig.setChecked_of {P : EtSysConfig → Prop} {accepted : Bool}
    {set : EtSysConfig → EtSysConfig} (h : P sc) (hset : accepted = true → P (set sc)) :
    P (sc.setChecked accepted set).1 := by
  rw [setChecked_fst]
  split
  case isTrue hok => exact hset hok
  case isFalse => exact h

theorem EtSysConfig.InRange.copyGroups (h : sc.InRange) (groups : ℕ → Word) (n i : ℕ) :
    (EtSysConfig.copyGroups groups n i sc).1.InRange := by
  induction n generalizing i sc with
  | zero => exact h
  | succ n ih =>
      rw [EtSysConfig.copyGroups]
      split
      · exact h
      · exact ih (h.withGroups _ _) _

theorem EtSysConfig.InRange.setgroups (h : sc.InRange) (groups : Option (ℕ → Word))
    (size : Word) : (sc.setgroups groups size).1.InRange := by
  unfold EtSysConfig.setgroups
  split
  · exact h.withGroups _ _
  cases groups with
  | none => exact h
  | some groups =>
      have hcopy := h.copyGroups groups size.toInt.toNat 0
      dsimp only
      split
      · exact h
      split
      · exact hcopy
      · exact hcopy.withGroups _ _

/-- **Any call leaves the values in range.** -/
theorem EtSysConfig.InRange.serve (h : sc.InRange) (call : SysCall) :
    (sc.serve call).1.InRange := by
  cases call with
  | setevents val =>
      refine setChecked_of h fun hok => ?_
      have hval : 1 ≤ val.toInt := of_decide_eq_true hok
      have htemps := h.ntemps
      refine { h with nevents := ⟨hval, val.toInt_lt⟩, ntemps := ?_ }
      show 1 ≤ (if val.toInt < sc.ntemps then val.toInt else sc.ntemps) ∧
        (if val.toInt < sc.ntemps then val.toInt else sc.ntemps) ≤ val.toInt
      split
      · omega
      · omega
  | setsize val =>
      exact setChecked_of h fun hok =>
        { h with eventSize := ⟨of_decide_eq_true hok, val.isLt⟩ }
  | settemps val =>
      exact setChecked_of h fun hok => { h with ntemps := of_decide_eq_true hok }
  | setstations val =>
      exact setChecked_of h fun hok =>
        { h with nstations := ⟨of_decide_eq_true hok, val.toInt_lt⟩ }
  | setprocs val =>
      exact setChecked_of h fun hok => { h with
        nprocesses := ⟨le_min (of_decide_eq_true hok) (by decide), min_le_right ..⟩ }
  | setattachments val =>
      exact setChecked_of h fun hok => { h with
        nattachments := ⟨le_min (of_decide_eq_true hok) (by decide), min_le_right ..⟩ }
  | setport val => exact setChecked_of h fun _ => { h with }
  | setserverport val => exact setChecked_of h fun _ => { h with }
  | settcp rBufSize sBufSize noDelay => exact setChecked_of h fun _ => { h with }
  | setfile val => exact setChecked_of h fun _ => { h with }
  | setgroups groups size => exact h.setgroups groups size

/-- A setter of a value that the groups do not depend on. -/
theorem ConfigState.Kept.of_sameGroups {sc' : EtSysConfig} (h : Kept ⟨sc, intended⟩)
    (hrange : sc'.InRange) (hevents : sc'.nevents = sc.nevents)
    (hcount : sc'.groupCount = sc.groupCount) (hgroups : sc'.groups = sc.groups) :
    Kept ⟨sc', intended⟩ := by
  have hsizes : sc'.groupSizes = sc.groupSizes := by
    unfold EtSysConfig.groupSizes
    rw [hcount, hgroups]
  refine ⟨hevents ▸ h.events, hrange, h.groups.imp (fun hone => ?_) fun hmany => ?_⟩
  · obtain ⟨hc, hasked, hev⟩ := hone
    exact ⟨hcount.trans hc, hasked, by simp only [hgroups, hevents]; exact hev⟩
  · obtain ⟨hc, hasked, hpos, hsum⟩ := hmany
    exact ⟨hcount ▸ hc, hsizes ▸ hasked, hsizes ▸ hpos, by simp only [hsizes, hevents]; exact hsum⟩

theorem ConfigState.Kept.of_setChecked {accepted : Bool} {set : EtSysConfig → EtSysConfig}
    (h : Kept ⟨sc, intended⟩) (hrange : (sc.setChecked accepted set).1.InRange)
    (hevents : (set sc).nevents = sc.nevents) (hcount : (set sc).groupCount = sc.groupCount)
    (hgroups : (set sc).groups = sc.groups) :
    Kept ⟨(sc.setChecked accepted set).1, intended⟩ := by
  rw [EtSysConfig.setChecked_fst] at hrange ⊢
  split at hrange
  case isTrue hok =>
    rw [if_pos hok]
    exact h.of_sameGroups hrange hevents hcount hgroups
  case isFalse hno =>
    rw [if_neg hno]
    exact h

theorem ConfigState.Kept.setevents {val : Word} (h : Kept ⟨sc, intended⟩)
    (hsound : SysCall.Sound ⟨sc, intended⟩ (.setevents val)) :
    Kept (serve ⟨sc, intended⟩ (.setevents val)) := by
  obtain ⟨hevents, hrange, hgroups⟩ := h
  by_cases hval : 1 ≤ val.toInt
  swap
  · -- a value that is refused asks for nothing
    have hsc : (sc.serve (.setevents val)).1 = sc := by
      rw [EtSysConfig.serve, EtSysConfig.setevents, EtSysConfig.setChecked_fst,
        if_neg (by simpa using hval)]
    have hask : intended.ask (.setevents val) = intended := if_neg hval
    rw [serve, hsc, hask]
    exact ⟨hevents, hrange, hgroups⟩
  have hserved := hrange.serve (.setevents val)
  rw [serve]
  rw [EtSysConfig.serve, EtSysConfig.setevents, EtSysConfig.setChecked_fst,
    if_pos (by simpa using hval)] at hserved ⊢
  rw [Intended.ask, if_pos hval]
  refine ⟨rfl, hserved, ?_⟩
  rcases hgroups with hone | hmany
  · refine .inl ⟨hone.count, hone.asked, .inl ?_⟩
    show (if sc.groupCount = 1 then Function.update sc.groups 0 val.toInt else sc.groups) 0 =
      val.toInt
    rw [if_pos hone.count, Function.update_self]
  · have hkeep : (if sc.groupCount = 1 then Function.update sc.groups 0 val.toInt
        else sc.groups) = sc.groups := if_neg hmany.count
    right
    rw [hkeep]
    exact ⟨hmany.count, hmany.asked, hmany.pos, hsound hval hmany.count⟩

/-- One group is asked for. -/
theorem ConfigState.Kept.setgroups_one {groups : ℕ → Word} {size : Word}
    (h : Kept ⟨sc, intended⟩) (hone : size.toInt = 1) (hpos : 1 ≤ (groups 0).toInt)
    (hne : (groups 0).toInt ≠ sc.nevents) :
    Kept (serve ⟨sc, intended⟩ (.setgroups (some groups) size)) := by
  have hsizes : arraySizes groups size.toInt.toNat = [(groups 0).toInt] := by
    rw [arraySizes, hone]
    rfl
  have hask : intended.ask (.setgroups (some groups) size) =
      { intended with groups := some [(groups 0).toInt] } := by
    have hvalid : (1 ≤ size.toInt ∧ size.toInt ≤ etEventGroupsMax) ∧
        ∀ g ∈ arraySizes groups size.toInt.toNat, 1 ≤ g := by
      rw [hsizes]
      refine ⟨by rw [hone]; decide, fun g hg => ?_⟩
      rwa [List.mem_singleton.mp hg]
    rw [Intended.ask, if_pos hvalid, hsizes]
  have hsc : (sc.serve (.setgroups (some groups) size)).1 =
      { sc.clearGroups 0 with groupCount := 1 } := by
    rw [EtSysConfig.serve, EtSysConfig.setgroups, if_pos hone]
  rw [serve, hask, hsc]
  refine ⟨h.events, h.inRange.withGroups 1 _,
    .inl ⟨rfl, fun sizes hs => ⟨_, (Option.some.inj hs).symm⟩, .inr ⟨?_, fun hdoc => hne ?_⟩⟩⟩
  · show (if 0 ≤ 0 ∧ 0 < etEventGroupsMax then (0 : ℤ) else sc.groups 0) = 0
    exact if_pos (by decide)
  have hsum : ([(groups 0).toInt] : List ℤ).sum = intended.events := hdoc
  rw [List.sum_singleton] at hsum
  rw [hsum]
  exact h.events

/-- Several groups are asked for. -/
theorem ConfigState.Kept.setgroups_several {groups : ℕ → Word} {size : Word}
    (h : Kept ⟨sc, intended⟩) (hone : size.toInt ≠ 1)
    (hsize : 1 ≤ size.toInt ∧ size.toInt ≤ etEventGroupsMax)
    (hpos : ∀ g ∈ arraySizes groups size.toInt.toNat, 1 ≤ g)
    (hsum : AddsUp sc.nevents (arraySizes groups size.toInt.toNat)) :
    Kept (serve ⟨sc, intended⟩ (.setgroups (some groups) size)) := by
  have hask : intended.ask (.setgroups (some groups) size) =
      { intended with groups := some (arraySizes groups size.toInt.toNat) } :=
    if_pos ⟨hsize, hpos⟩
  have hcopy : ∀ j < size.toInt.toNat, 1 ≤ (groups (0 + j)).toInt := by
    intro j hj
    rw [Nat.zero_add]
    exact hpos _ (List.mem_map.mpr ⟨j, List.mem_range.mpr hj, rfl⟩)
  obtain ⟨sc', hsc', hcount, hgroups, hevents, hrange⟩ : ∃ sc' : EtSysConfig,
      (sc.serve (.setgroups (some groups) size)).1 = sc' ∧
        sc'.groupCount = size.toInt.toNat ∧
        (∀ k < size.toInt.toNat, sc'.groups k = (groups k).toInt) ∧
        sc'.nevents = sc.nevents ∧ sc'.InRange := by
    refine ⟨_, rfl, ?_⟩
    rw [EtSysConfig.serve, EtSysConfig.setgroups, if_neg hone]
    dsimp only
    rw [if_neg (by omega), EtSysConfig.copyGroups_of_pos hcopy]
    dsimp only
    rw [if_neg (by decide)]
    refine ⟨rfl, fun k hk => ?_, rfl, h.inRange.withGroups _ _⟩
    show (if size.toInt.toNat ≤ k ∧ k < etEventGroupsMax then (0 : ℤ)
      else if 0 ≤ k ∧ k < 0 + size.toInt.toNat then (groups k).toInt else sc.groups k) = _
    rw [if_neg (by omega), if_pos (by omega)]
  have hsizes : sc'.groupSizes = arraySizes groups size.toInt.toNat := by
    rw [EtSysConfig.groupSizes, arraySizes, hcount]
    exact List.map_congr_left fun k hk => hgroups k (List.mem_range.mp hk)
  rw [serve, hask, hsc']
  refine ⟨h.events.trans hevents.symm, hrange, .inr ⟨?_, ?_, ?_, ?_⟩⟩
  · show sc'.groupCount ≠ 1
    omega
  · exact congrArg some hsizes.symm
  · rwa [hsizes]
  · show AddsUp sc'.nevents sc'.groupSizes
    rwa [hevents, hsizes]

theorem ConfigState.Kept.setgroups {groups : Option (ℕ → Word)} {size : Word}
    (h : Kept ⟨sc, intended⟩) (hsound : SysCall.Sound ⟨sc, intended⟩ (.setgroups groups size)) :
    Kept (serve ⟨sc, intended⟩ (.setgroups groups size)) := by
  cases groups with
  | none =>
      have hsc : (sc.serve (.setgroups none size)).1 = sc := by
        rw [EtSysConfig.serve, EtSysConfig.setgroups, if_neg hsound]
      rw [serve, hsc]
      exact h
  | some groups =>
      dsimp only [SysCall.Sound] at hsound
      by_cases hone : size.toInt = 1
      · rw [if_pos hone] at hsound
        exact h.setgroups_one hone hsound.1 hsound.2
      rw [if_neg hone] at hsound
      by_cases hsize : 1 ≤ size.toInt ∧ size.toInt ≤ etEventGroupsMax
      swap
      · -- the size is refused
        have hsc : (sc.serve (.setgroups (some groups) size)).1 = sc := by
          rw [EtSysConfig.serve, EtSysConfig.setgroups, if_neg hone]
          dsimp only
          rw [if_pos (by omega)]
        have hask : intended.ask (.setgroups (some groups) size) = intended :=
          if_neg fun hvalid => hsize hvalid.1
        rw [serve, hsc, hask]
        exact h
      rw [if_pos hsize.2] at hsound
      by_cases hpos : ∀ g ∈ arraySizes groups size.toInt.toNat, 1 ≤ g
      · rw [if_pos hpos] at hsound
        exact h.setgroups_several hone hsize hpos hsound
      · -- an element is refused
        rw [if_neg hpos] at hsound
        have hbad : ∃ j < size.toInt.toNat, (groups (0 + j)).toInt < 1 := by
          push Not at hpos
          obtain ⟨g, hg, hlt⟩ := hpos
          obtain ⟨j, hj, rfl⟩ := List.mem_map.mp hg
          exact ⟨j, List.mem_range.mp hj, by rwa [Nat.zero_add]⟩
        have hcopy := @EtSysConfig.copyGroups_of_refused sc groups size.toInt.toNat 0 hbad
          fun j hj hall => by
            rw [Nat.zero_add]
            refine hsound j hj fun k hk => ?_
            have := hall k hk
            rwa [Nat.zero_add] at this
        have hsc : (sc.serve (.setgroups (some groups) size)).1 = sc := by
          rw [EtSysConfig.serve, EtSysConfig.setgroups, if_neg hone]
          dsimp only
          rw [if_neg (by omega), hcopy]
          dsimp only
          rw [if_pos rfl]
        have hask : intended.ask (.setgroups (some groups) size) = intended :=
          if_neg fun hvalid => hpos hvalid.2
        rw [serve, hsc, hask]
        exact h

end Step

/-- **One call keeps the invariant.** -/
theorem ConfigState.Kept.serve {state : ConfigState} {call : SysCall} (h : state.Kept)
    (hsound : call.Sound state) : (state.serve call).Kept := by
  obtain ⟨sc, intended⟩ := state
  have hrange := h.inRange
  cases call with
  | setevents val => exact h.setevents hsound
  | setgroups groups size => exact h.setgroups hsound
  | setsize val => exact h.of_setChecked (hrange.serve (.setsize val)) rfl rfl rfl
  | settemps val => exact h.of_setChecked (hrange.serve (.settemps val)) rfl rfl rfl
  | setstations val => exact h.of_setChecked (hrange.serve (.setstations val)) rfl rfl rfl
  | setprocs val => exact h.of_setChecked (hrange.serve (.setprocs val)) rfl rfl rfl
  | setattachments val => exact h.of_setChecked (hrange.serve (.setattachments val)) rfl rfl rfl
  | setport val => exact h.of_setChecked (hrange.serve (.setport val)) rfl rfl rfl
  | setserverport val => exact h.of_setChecked (hrange.serve (.setserverport val)) rfl rfl rfl
  | settcp rBufSize sBufSize noDelay =>
      exact h.of_setChecked (hrange.serve (.settcp rBufSize sBufSize noDelay)) rfl rfl rfl
  | setfile val => exact h.of_setChecked (hrange.serve (.setfile val)) rfl rfl rfl

/-! ## The runs -/

theorem kept_init : ConfigState.Kept ⟨etSystemConfigInit, ⟨300, none⟩⟩ := by
  refine ⟨rfl, ?_, .inl ⟨rfl, nofun, .inl rfl⟩⟩
  constructor <;> norm_num [etSystemConfigInit, etAttachmentsMax, etProcessesMax]

/-- **Configurations and their groups**, in every run of such calls. -/
theorem configuration_handlesGroups (state : ConfigState)
    (h : configMachine.Reach SysCall.Sound state) : state.HandlesGroups := by
  have hkept : state.Kept := by
    refine h.invariant ?_ fun s call t hs hsound hstep => ?_
    · rintro s rfl
      exact kept_init
    · rw [← Option.some.inj hstep]
      exact hs.serve hsound
  exact hkept.handlesGroups

/-- Ten events in groups of four and six. -/
def fourAndSix : ConfigState :=
  let start : ConfigState := ⟨etSystemConfigInit, ⟨300, none⟩⟩
  (start.serve (.setevents 10)).serve (.setgroups (some fun i => if i = 0 then 4 else 6) 2)

theorem configuration_fourAndSix : fourAndSix.HandlesGroups := by
  refine configuration_handlesGroups fourAndSix ?_
  refine .step (.setgroups (some fun i => if i = 0 then 4 else 6) 2)
    (.step (.setevents 10) (.start rfl) ?_ rfl) ?_ rfl
  · exact fun _ hne => absurd rfl hne
  · show AddsUp _ _
    exact fun _ => rfl

/-- **One group with all events**, which is the same as no groups: it is set to no events. -/
theorem configuration_not_handlesGroups :
    ¬ ∀ state, configMachine.Reach (fun _ _ => True) state → state.HandlesGroups := by
  intro h
  let start : ConfigState := ⟨etSystemConfigInit, ⟨300, none⟩⟩
  let oneGroup := (start.serve (.setevents 10)).serve (.setgroups (some fun _ => 10) 1)
  have hreach : configMachine.Reach (fun _ _ => True) oneGroup :=
    .step (.setgroups (some fun _ => 10) 1)
      (.step (.setevents 10) (.start rfl) trivial rfl) trivial rfl
  have hdoc : oneGroup.intended.Documented := rfl
  have hrefused : etSystemConfigCheck oneGroup.config =
      .error "events in groups != total event number" := rfl
  have haccepted := ((h oneGroup hreach).accepts hdoc).1
  rw [hrefused] at haccepted
  cases haccepted

end EventTransfer
