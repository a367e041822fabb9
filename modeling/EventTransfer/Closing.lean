import EventTransfer.HeartMonitor
import EventTransfer.Snapshot
import EventTransfer.Lib.Tally

/-!
# Closing an ET system

A process has a slot of the `proc` table from `et_open` to `et_close`.  The calls are made of
sections under the system mutex, and between two of them other processes and the heart monitor
may do theirs.  The monitor may clean up any slot at any time here: it looks at the status of a
slot before it takes the mutexes.

* `etlClose`, `etlForcedclose` — the calls, section by section.
* `AllOrNothing` — a call succeeds, and the slot is free, the heartbeat is stopped and
  `nprocesses` is one lower; or it fails and nothing has changed.
* `ClosingStep.Sound` — the condition on a step: a process that does something has its slot
  still, and when a slot is cleaned up all others in use are open.
* `closing_allOrNothing` — in a run of such steps `nprocesses` is the number of slots in use, and
  it is said when each of the calls is all or nothing.

The ids are those of clients; that of the ET system process has no slot.
-/

namespace EventTransfer

open StepRun Tally

/-! ## The sections of the calls -/

/-- `ET_ERROR_DEAD`. -/
def etErrorDead : Wire.Word := -8

/-- `ET_ERROR_CLOSED`. -/
def etErrorClosed : Wire.Word := -18

namespace Closing

open Wire

/-- An entry of `sys->proc`; `att` says which attachments are not `-1`. -/
structure ProcEntry where
  num : Option ℕ
  status : ProcStatus
  att : ℕ → Bool

/-- `et_init_process`. -/
def ProcEntry.init : ProcEntry := ⟨none, .closed, fun _ => false⟩

/-- An entry of `sys->attach`; `none` is `-1`. -/
structure AttachEntry where
  num : Option ℕ
  proc : Option ℕ
  stat : Option ℕ

/-- `et_init_attachment`. -/
def AttachEntry.init : AttachEntry := ⟨none, none, none⟩

/-- How far a process is in `etl_open` and `etl_close`. -/
inductive IdPc
  | outside
  | reserved
  | started
  | opened
  | closing
  | stopped
  | reopened
  deriving DecidableEq, Repr

/-- The process has declared its slot open. -/
def IdPc.isOpen : IdPc → Bool
  | .opened | .reopened => true
  | _ => false

/-- The id of a process (`et_id`): `me` is `etid->proc`, and `beating` says that its heartbeat
thread runs. -/
structure EtId where
  pc : IdPc
  me : ℕ
  closed : Bool
  beating : Bool
  alive : Bool

/-- The shared memory and the ids.  `owner` is the process a slot was last given to and not
taken back from; no step reads it. -/
structure ClosingState where
  proc : ℕ → ProcEntry
  attach : ℕ → AttachEntry
  nprocesses : ℤ
  id : ℕ → EtId
  owner : ℕ → Option ℕ

namespace ClosingState

variable (s : ClosingState) (p : ℕ)

/-- The slot number of the process. -/
def me : ℕ := (s.id p).me

/-- The slot of the process. -/
def mine : ProcEntry := s.proc (s.me p)

def setId (etid : EtId) : ClosingState := { s with id := Function.update s.id p etid }

def setMine (entry : ProcEntry) : ClosingState :=
  { s with proc := Function.update s.proc (s.me p) entry }

/-- `sys->nprocesses--` and `et_init_process`. -/
def giveBack : ClosingState :=
  { s.setMine p .init with
    nprocesses := s.nprocesses - 1
    owner := Function.update s.owner (s.me p) none }

/-- The section of `etl_open` under the mutex, where there is a free slot.  The id is new. -/
def reserve (n : ℕ) : Option ClosingState :=
  ((List.range n).find? fun i => (s.proc i).num.isNone).map fun i =>
    { s with
      proc := Function.update s.proc i { s.proc i with num := some i }
      nprocesses := s.nprocesses + 1
      id := Function.update s.id p ⟨.reserved, i, false, false, true⟩
      owner := Function.update s.owner i (some p) }

/-- The threads of the process are started. -/
def startThreads : ClosingState :=
  s.setId p { s.id p with pc := .started, beating := true }

/-- The threads have not started in time. -/
def openFails : ClosingState :=
  (s.giveBack p).setId p { s.id p with pc := .outside, beating := false }

def markOpen : ClosingState :=
  (s.setMine p { s.mine p with status := .opened }).setId p { s.id p with pc := .opened }

/-- `et_station_attach` to a station that takes the attachment. -/
def etStationAttach (natts stat : ℕ) : ClosingState × Word :=
  if (s.id p).alive = false then (s, etErrorDead)
  else if (s.id p).closed = true then (s, etErrorClosed)
  else
    match (List.range natts).find? fun a => (s.attach a).num.isNone with
    | none => (s, etError)
    | some a =>
        ({ s.setMine p { s.mine p with att := Function.update (s.mine p).att a true } with
            attach := Function.update s.attach a ⟨some a, some (s.me p), some stat⟩ }, etOk)

/-- `et_station_detach`. -/
def etStationDetach (natts a : ℕ) : ClosingState × Word :=
  if a ≥ etAttachmentsMax then (s, etError)
  else if (s.id p).alive = false then (s, etErrorDead)
  else if (s.id p).closed = true then (s, etErrorClosed)
  else if a ≥ natts then (s, etError)
  else if (s.attach a).stat = none then (s, etError)
  else
    ({ s.setMine p { s.mine p with att := Function.update (s.mine p).att a false } with
        attach := Function.update s.attach a { s.attach a with num := none } }, etOk)

/-- "Record that fact that close has been called", and "keep the ET system from killing us". -/
def closeBegin : ClosingState :=
  (s.setMine p { s.mine p with status := .closed }).setId p
    { s.id p with pc := .closing, closed := true }

/-- `et_stop_heartmonitor` and `et_stop_heartbeat`. -/
def stopThreads : ClosingState :=
  s.setId p { s.id p with pc := .stopped, beating := false }

/-- "Change this back so et_system can clean up if necessary". -/
def closeReopen : ClosingState :=
  (s.setMine p { s.mine p with status := .opened }).setId p { s.id p with pc := .reopened }

/-- The end of `etl_close`: refused while the ET system lives and the process is attached. -/
def closeFinish (natts : ℕ) : ClosingState × Word :=
  if (s.id p).alive = true ∧ ∃ a < natts, (s.mine p).att a = true then
    (s.setId p { s.id p with pc := .opened }, etError)
  else ((s.giveBack p).setId p { s.id p with pc := .outside }, etOk)

/-- `etl_close`. -/
def etlClose (natts : ℕ) : ClosingState × Word :=
  ((((s.closeBegin p).stopThreads p).closeReopen p).closeFinish p natts)

/-- The loop of `etl_forcedclose`, over the attachments that are left. -/
def detachLoop (p natts : ℕ) : List ℕ → ClosingState → ClosingState
  | [], s => s
  | a :: rest, s =>
      if (s.mine p).att a = true then detachLoop p natts rest (s.etStationDetach p natts a).1
      else detachLoop p natts rest s

/-- `etl_forcedclose`. -/
def etlForcedclose (natts : ℕ) : ClosingState × Word :=
  if (s.id p).alive = true then (detachLoop p natts (List.range natts) s).etlClose p natts
  else s.etlClose p natts

/-- The monitor cleans up slot `i`: the attachments are detached, the slot is given back, and
the open slots are counted (`et_fix_nprocs`). -/
def cleanup (n i : ℕ) : ClosingState :=
  let proc := Function.update s.proc i .init
  { s with
    proc
    attach := fun a =>
      if (s.proc i).att a = true then { s.attach a with num := none } else s.attach a
    nprocesses := ((List.range n).countP fun j => (proc j).status = .opened : ℕ)
    owner := Function.update s.owner i none }

end ClosingState

/-! ## The runs -/

/-- **The steps**: the sections of process `p`, a clean-up, and what the heart monitor of a
process finds out about the ET system. -/
inductive ClosingStep
  | reserve (p : ℕ)
  | startThreads (p : ℕ)
  | openFails (p : ℕ)
  | markOpen (p : ℕ)
  | attach (p stat : ℕ)
  | detach (p a : ℕ)
  | closeBegin (p : ℕ)
  | stopThreads (p : ℕ)
  | closeReopen (p : ℕ)
  | closeFinish (p : ℕ)
  | cleanup (i : ℕ)
  | setAlive (p : ℕ) (alive : Bool)

/-- `n` slots and `natts` attachments; `none` when the process is elsewhere. -/
def step (n natts : ℕ) (s : ClosingState) : ClosingStep → Option ClosingState
  | .reserve p => if (s.id p).pc = .outside then s.reserve p n else none
  | .startThreads p => if (s.id p).pc = .reserved then s.startThreads p else none
  | .openFails p =>
      if (s.id p).pc = .reserved ∨ (s.id p).pc = .started then s.openFails p else none
  | .markOpen p => if (s.id p).pc = .started then s.markOpen p else none
  | .attach p stat => if (s.id p).pc = .opened then (s.etStationAttach p natts stat).1 else none
  | .detach p a => if (s.id p).pc = .opened then (s.etStationDetach p natts a).1 else none
  | .closeBegin p => if (s.id p).pc = .opened then s.closeBegin p else none
  | .stopThreads p => if (s.id p).pc = .closing then s.stopThreads p else none
  | .closeReopen p => if (s.id p).pc = .stopped then s.closeReopen p else none
  | .closeFinish p => if (s.id p).pc = .reopened then (s.closeFinish p natts).1 else none
  | .cleanup i => if i < n then s.cleanup n i else none
  | .setAlive p alive => s.setId p { s.id p with alive := alive }

/-- Nobody has opened the system yet. -/
def ClosingState.initial : ClosingState where
  proc _ := .init
  attach _ := .init
  nprocesses := 0
  id _ := ⟨.outside, 0, false, false, false⟩
  owner _ := none

def machine (n natts : ℕ) : Machine ClosingState ClosingStep :=
  .ofStep (· = .initial) (step n natts)

/-- **The slots in use.** -/
def inUse (n : ℕ) (s : ClosingState) : ℕ :=
  ∑ i ∈ Finset.range n, if (s.proc i).num = none then 0 else 1

/-- The call has succeeded. -/
structure Gone (s t : ClosingState) (p : ℕ) : Prop where
  free : t.proc (s.me p) = .init
  stopped : (t.id p).beating = false
  nprocesses : t.nprocesses = s.nprocesses - 1

/-- Everything is as it was. -/
structure Kept (s t : ClosingState) (p : ℕ) : Prop where
  status : (t.proc (s.me p)).status = (s.proc (s.me p)).status
  beating : (t.id p).beating = (s.id p).beating
  closed : (t.id p).closed = (s.id p).closed
  att : (t.proc (s.me p)).att = (s.proc (s.me p)).att
  attach : t.attach = s.attach

/-- The attachments of the process are detached. -/
def Detached (s t : ClosingState) (p : ℕ) : Prop :=
  ∀ a, (s.mine p).att a = true → (t.attach a).num = none

/-- **A call is all or nothing.** -/
def AllOrNothing (s : ClosingState) (p : ℕ) (forced : Bool) (r : ClosingState × Word) : Prop :=
  r.2 = etOk ∧ Gone s r.1 p ∧ (forced = true → Detached s r.1 p) ∨ r.2 ≠ etOk ∧ Kept s r.1 p

/-- The process has its slot still. -/
def ClosingState.Has (s : ClosingState) (p : ℕ) : Prop := s.owner (s.me p) = some p

instance (s : ClosingState) (p : ℕ) : Decidable (s.Has p) := inferInstanceAs (Decidable (_ = _))

/-- **The condition on a step.** -/
def ClosingStep.Sound (n : ℕ) (s : ClosingState) : ClosingStep → Prop
  | .startThreads p | .openFails p | .markOpen p | .attach p _ | .detach p _ | .closeBegin p
  | .stopThreads p | .closeReopen p | .closeFinish p => s.Has p
  | .cleanup i => ∀ j < n, j ≠ i → (s.proc j).num ≠ none → (s.proc j).status = .opened
  | .reserve _ | .setAlive .. => True

instance (n : ℕ) (s : ClosingState) : (a : ClosingStep) → Decidable (a.Sound n s)
  | .startThreads p | .openFails p | .markOpen p | .attach p _ | .detach p _ | .closeBegin p
  | .stopThreads p | .closeReopen p | .closeFinish p => inferInstanceAs (Decidable (s.Has p))
  | .cleanup i => inferInstanceAs (Decidable (∀ j < n, j ≠ i → (s.proc j).num ≠ none →
      (s.proc j).status = .opened))
  | .reserve _ | .setAlive .. => isTrue trivial

/-! ## The invariant -/

section Invariant

variable {n natts : ℕ} {s t : ClosingState} {p i : ℕ}

/-- An id says of itself whether its heartbeat is stopped. -/
structure EtId.Ok (etid : EtId) : Prop where
  fresh : etid.pc = .reserved → etid.closed = false
  quiet : etid.closed = true → etid.pc ≠ .closing → etid.beating = false
  stopped : etid.pc = .stopped ∨ etid.pc = .reopened → etid.beating = false

/-- **The invariant of the slots and the ids.** -/
structure Inv (n natts : ℕ) (s : ClosingState) : Prop where
  owned : ∀ i p, s.owner i = some p → (i < n ∧ s.me p = i) ∧ (s.id p).pc ≠ .outside ∧
    (s.proc i).num ≠ none ∧ ((s.proc i).status = .opened ↔ (s.id p).pc.isOpen = true)
  free : ∀ i, s.owner i = none → s.proc i = .init
  ids : ∀ p, (s.id p).Ok
  attached : ∀ i a, (s.proc i).att a = true → a < natts ∧ (s.attach a).stat ≠ none
  count : s.nprocesses = inUse n s

theorem inv_initial : Inv n natts .initial where
  owned := nofun
  free _ _ := rfl
  ids _ := ⟨nofun, nofun, fun h => h.elim nofun nofun⟩
  attached := nofun
  count := by
    have : inUse n .initial = 0 := Finset.sum_eq_zero fun _ _ => rfl
    rw [this]
    rfl

/-- One slot changes. -/
theorem inUse_update (hi : i < n) (entry : ProcEntry)
    (hproc : t.proc = Function.update s.proc i entry) :
    inUse n t + (if (s.proc i).num = none then 0 else 1) =
      inUse n s + (if entry.num = none then 0 else 1) := by
  have hsum := sum_weight_update (Finset.mem_range.mpr hi)
    (fun e : ProcEntry => if e.num = none then 0 else 1) s.proc entry
  unfold inUse
  rw [hproc]
  exact hsum

/-- **A process works on its own slot**, and keeps it. -/
theorem Inv.work {entry : ProcEntry} {etid : EtId} (h : Inv n natts s) (hown : s.Has p)
    (hproc : t.proc = Function.update s.proc (s.me p) entry)
    (hid : t.id = Function.update s.id p etid) (howner : t.owner = s.owner)
    (hn : t.nprocesses = s.nprocesses) (hme : etid.me = s.me p) (hin : etid.pc ≠ .outside)
    (hnum : entry.num = (s.mine p).num)
    (hstatus : entry.status = .opened ↔ etid.pc.isOpen = true)
    (hok : etid.Ok)
    (hatt : ∀ a, entry.att a = true → a < natts ∧ (t.attach a).stat ≠ none)
    (hstat : ∀ a, (s.attach a).stat ≠ none → (t.attach a).stat ≠ none) : Inv n natts t := by
  obtain ⟨⟨hlt, -⟩, -, hused, -⟩ := h.owned _ _ hown
  refine ⟨fun i q hq => ?_, fun i hi => ?_, fun q => ?_, fun i a ha => ?_, ?_⟩
  · rw [howner] at hq
    obtain ⟨⟨hi, hqi⟩, hpc, hqn, hqs⟩ := h.owned i q hq
    unfold ClosingState.me
    rw [hid, hproc]
    rcases eq_or_ne q p with rfl | hne
    · rw [Function.update_self]
      have him : i = s.me q := hqi.symm
      rw [him, Function.update_self]
      exact ⟨⟨hlt, hme⟩, hin, hnum ▸ hused, hstatus⟩
    · have hslot : i ≠ s.me p := by
        rintro rfl
        exact hne (Option.some.inj (hq.symm.trans hown))
      rw [Function.update_of_ne hne, Function.update_of_ne hslot]
      exact ⟨⟨hi, hqi⟩, hpc, hqn, hqs⟩
  · rw [howner] at hi
    have hslot : i ≠ s.me p := by
      rintro rfl
      exact nomatch hi.symm.trans hown
    rw [hproc, Function.update_of_ne hslot]
    exact h.free i hi
  · rw [hid]
    rcases eq_or_ne q p with rfl | hne
    · rw [Function.update_self]
      exact hok
    · rw [Function.update_of_ne hne]
      exact h.ids q
  · rw [hproc] at ha
    rcases eq_or_ne i (s.me p) with rfl | hne
    · rw [Function.update_self] at ha
      exact hatt a ha
    · rw [Function.update_of_ne hne] at ha
      obtain ⟨hlt, hs⟩ := h.attached i a ha
      exact ⟨hlt, hstat a hs⟩
  · have hcount := inUse_update hlt entry hproc
    have hsame : (if (s.proc (s.me p)).num = none then 0 else 1) =
        if entry.num = none then 0 else 1 := by
      rw [hnum]
      rfl
    rw [hn, h.count]
    omega

/-- **A process gives its slot back.** -/
theorem Inv.release {etid : EtId} (h : Inv n natts s) (hown : s.Has p)
    (hok : etid.Ok) : Inv n natts ((s.giveBack p).setId p etid) := by
  obtain ⟨⟨hlt, -⟩, -, hused, -⟩ := h.owned _ _ hown
  refine ⟨fun i q hq => ?_, fun i hi => ?_, fun q => ?_, fun i a ha => ?_, ?_⟩
  · have hslot : i ≠ s.me p := by
      rintro rfl
      have : (Function.update s.owner (s.me p) none) (s.me p) = some q := hq
      rw [Function.update_self] at this
      cases this
    have hq' : s.owner i = some q := by
      have : (Function.update s.owner (s.me p) none) i = some q := hq
      rwa [Function.update_of_ne hslot] at this
    obtain ⟨⟨hi, hqi⟩, hpc, hqn, hqs⟩ := h.owned i q hq'
    have hne : q ≠ p := by
      rintro rfl
      exact hslot hqi.symm
    have hidq : ((s.giveBack p).setId p etid).id q = s.id q := Function.update_of_ne hne ..
    have hproci : ((s.giveBack p).setId p etid).proc i = s.proc i := Function.update_of_ne hslot ..
    unfold ClosingState.me
    rw [hidq, hproci]
    exact ⟨⟨hi, hqi⟩, hpc, hqn, hqs⟩
  · show Function.update s.proc (s.me p) .init i = .init
    rcases eq_or_ne i (s.me p) with rfl | hne
    · rw [Function.update_self]
    · have : (Function.update s.owner (s.me p) none) i = none := hi
      rw [Function.update_of_ne hne] at this ⊢
      exact h.free i this
  · show (Function.update s.id p etid q).Ok
    rcases eq_or_ne q p with rfl | hne
    · rw [Function.update_self]
      exact hok
    · rw [Function.update_of_ne hne]
      exact h.ids q
  · have ha' : (Function.update s.proc (s.me p) .init i).att a = true := ha
    rcases eq_or_ne i (s.me p) with rfl | hne
    · rw [Function.update_self] at ha'
      cases ha'
    · rw [Function.update_of_ne hne] at ha'
      exact h.attached i a ha'
  · have hcount := @inUse_update n s ((s.giveBack p).setId p etid) _ hlt .init rfl
    rw [if_neg hused] at hcount
    have hinit : (if ProcEntry.init.num = none then 0 else 1) = 0 := rfl
    rw [hinit] at hcount
    show s.nprocesses - 1 = _
    rw [h.count]
    omega

/-- What the heart monitor of a process finds out. -/
theorem Inv.setAlive (h : Inv n natts s) (p : ℕ) (alive : Bool) :
    Inv n natts (s.setId p { s.id p with alive := alive }) := by
  have hid : ∀ q, (s.setId p { s.id p with alive := alive }).id q =
      { s.id q with alive := ((s.setId p { s.id p with alive := alive }).id q).alive } := by
    intro q
    unfold ClosingState.setId
    dsimp only
    rcases eq_or_ne q p with rfl | hne
    · rw [Function.update_self]
    · rw [Function.update_of_ne hne]
  refine ⟨fun i q hq => ?_, h.free, fun q => ?_, h.attached, h.count⟩
  · unfold ClosingState.me
    rw [hid q]
    exact h.owned i q hq
  · rw [hid q]
    exact { h.ids q with }

/-- **A process takes a slot.** -/
theorem Inv.reserve (h : Inv n natts s) (hout : (s.id p).pc = .outside)
    (ht : s.reserve p n = some t) : Inv n natts t := by
  rw [ClosingState.reserve, Option.map_eq_some_iff] at ht
  obtain ⟨i, hi, rfl⟩ := ht
  have hlt : i < n := List.mem_range.mp (List.mem_of_find?_eq_some hi)
  have hfree : (s.proc i).num = none := by simpa using List.find?_some hi
  have hnone : s.owner i = none := by
    cases ho : s.owner i with
    | none => rfl
    | some q => exact absurd hfree (h.owned i q ho).2.2.1
  have hinit := h.free i hnone
  have hp : ∀ j, s.owner j ≠ some p := fun j hj => (h.owned j p hj).2.1 hout
  refine ⟨fun j q hq => ?_, fun j hj => ?_, fun q => ?_, fun j a ha => ?_, ?_⟩
  · have hq' : Function.update s.owner i (some p) j = some q := hq
    show (j < n ∧ (Function.update s.id p _ q).me = j) ∧ (Function.update s.id p _ q).pc ≠ .outside ∧
      (Function.update s.proc i _ j).num ≠ none ∧
        ((Function.update s.proc i _ j).status = .opened ↔
          (Function.update s.id p _ q).pc.isOpen = true)
    rcases eq_or_ne j i with rfl | hne
    · rw [Function.update_self] at hq'
      cases hq'
      rw [Function.update_self, Function.update_self, hinit]
      exact ⟨⟨hlt, rfl⟩, nofun, nofun, iff_of_false nofun nofun⟩
    · rw [Function.update_of_ne hne] at hq'
      have hqp : q ≠ p := by
        rintro rfl
        exact hp j hq'
      rw [Function.update_of_ne hqp, Function.update_of_ne hne]
      exact h.owned j q hq'
  · have hj' : Function.update s.owner i (some p) j = none := hj
    show Function.update s.proc i _ j = .init
    rcases eq_or_ne j i with rfl | hne
    · rw [Function.update_self] at hj'
      cases hj'
    · rw [Function.update_of_ne hne] at hj' ⊢
      exact h.free j hj'
  · show (Function.update s.id p ⟨.reserved, i, false, false, true⟩ q).Ok
    rcases eq_or_ne q p with rfl | hne
    · rw [Function.update_self]
      exact ⟨fun _ => rfl, fun _ _ => rfl, fun _ => rfl⟩
    · rw [Function.update_of_ne hne]
      exact h.ids q
  · have ha' : (Function.update s.proc i { s.proc i with num := some i } j).att a = true := ha
    rcases eq_or_ne j i with rfl | hne
    · rw [Function.update_self] at ha'
      exact h.attached j a ha'
    · rw [Function.update_of_ne hne] at ha'
      exact h.attached j a ha'
  · have hcount := inUse_update hlt { s.proc i with num := some i } (t := { s with
      proc := Function.update s.proc i { s.proc i with num := some i }
      nprocesses := s.nprocesses + 1
      id := Function.update s.id p ⟨.reserved, i, false, false, true⟩
      owner := Function.update s.owner i (some p) }) rfl
    have hnew : (if ({ s.proc i with num := some i } : ProcEntry).num = none then 0 else 1) = 1 :=
      if_neg nofun
    rw [if_pos hfree, hnew] at hcount
    have hn := h.count
    show s.nprocesses + 1 = _
    omega

/-- **The clean-up of a slot**, when all others in use are open. -/
theorem Inv.cleanup (h : Inv n natts s)
    (hopen : ∀ j < n, j ≠ i → (s.proc j).num ≠ none → (s.proc j).status = .opened) :
    Inv n natts (s.cleanup n i) := by
  have hproc : ∀ j ≠ i, (s.cleanup n i).proc j = s.proc j := fun j hj =>
    Function.update_of_ne hj ..
  have hself : (s.cleanup n i).proc i = .init := Function.update_self ..
  have hstat : ∀ a, ((s.cleanup n i).attach a).stat = (s.attach a).stat := by
    intro a
    show (if (s.proc i).att a = true then _ else _ : AttachEntry).stat = _
    split
    · rfl
    · rfl
  refine ⟨fun j q hq => ?_, fun j hj => ?_, h.ids, fun j a ha => ?_, ?_⟩
  · have hq' : Function.update s.owner i none j = some q := hq
    rcases eq_or_ne j i with rfl | hne
    · rw [Function.update_self] at hq'
      cases hq'
    · rw [Function.update_of_ne hne] at hq'
      rw [hproc j hne]
      exact h.owned j q hq'
  · rcases eq_or_ne j i with rfl | hne
    · exact hself
    · have hj' : Function.update s.owner i none j = none := hj
      rw [Function.update_of_ne hne] at hj'
      rw [hproc j hne]
      exact h.free j hj'
  · rw [hstat]
    rcases eq_or_ne j i with rfl | hne
    · rw [hself] at ha
      cases ha
    · rw [hproc j hne] at ha
      exact h.attached j a ha
  · -- the open slots are those in use
    show (((List.range n).countP fun j =>
      ((s.cleanup n i).proc j).status = .opened : ℕ) : ℤ) = inUse n (s.cleanup n i)
    have hslots : ∀ j < n, (((s.cleanup n i).proc j).status = .opened ↔
        ((s.cleanup n i).proc j).num ≠ none) := by
      intro j hj
      rcases eq_or_ne j i with rfl | hne
      · rw [hself]
        exact iff_of_false nofun (not_not.mpr rfl)
      · rw [hproc j hne]
        refine ⟨fun hs => ?_, hopen j hj hne⟩
        cases ho : s.owner j with
        | none =>
            rw [h.free j ho] at hs
            cases hs
        | some q => exact (h.owned j q ho).2.2.1
    rw [countP_range, inUse]
    refine congrArg Nat.cast (Finset.sum_congr rfl fun j hj => ?_)
    have hj' := hslots j (Finset.mem_range.mp hj)
    by_cases hnum : ((s.cleanup n i).proc j).num = none
    · have hno : ¬ ((s.cleanup n i).proc j).status = .opened := fun hs => hj'.mp hs hnum
      rw [if_pos hnum, if_neg (by simpa using hno)]
    · rw [if_neg hnum, if_pos (by simpa using hj'.mpr hnum)]

/-- An attachment is made. -/
theorem Inv.attach (h : Inv n natts s) (hown : s.Has p) (hpc : (s.id p).pc = .opened)
    (stat : ℕ) : Inv n natts (s.etStationAttach p natts stat).1 := by
  obtain ⟨-, -, -, hst⟩ := h.owned _ _ hown
  rw [ClosingState.etStationAttach]
  split
  · exact h
  split
  · exact h
  case isFalse hclosed =>
  split
  · exact h
  case h_2 a ha =>
    have hlt : a < natts := List.mem_range.mp (List.mem_of_find?_eq_some ha)
    refine h.work hown rfl (Function.update_eq_self p s.id).symm rfl rfl rfl
      (by rw [hpc]; exact nofun) rfl hst (h.ids p) (fun b hb => ?_) fun b hb => ?_
    · show b < natts ∧ (Function.update s.attach a _ b).stat ≠ none
      rcases eq_or_ne b a with rfl | hne
      · rw [Function.update_self]
        exact ⟨hlt, nofun⟩
      · have hb' : Function.update (s.mine p).att a true b = true := hb
        rw [Function.update_of_ne hne] at hb' ⊢
        exact h.attached _ b hb'
    · show (Function.update s.attach a _ b).stat ≠ none
      rcases eq_or_ne b a with rfl | hne
      · rw [Function.update_self]
        exact nofun
      · rw [Function.update_of_ne hne]
        exact hb

/-- An attachment is given up. -/
theorem Inv.detach (h : Inv n natts s) (hown : s.Has p) (hpc : (s.id p).pc = .opened)
    (a : ℕ) : Inv n natts (s.etStationDetach p natts a).1 := by
  obtain ⟨-, -, -, hst⟩ := h.owned _ _ hown
  rw [ClosingState.etStationDetach]
  split_ifs
  · exact h
  · exact h
  · exact h
  · exact h
  · exact h
  have hstat : ∀ b, (Function.update s.attach a { s.attach a with num := none } b).stat =
      (s.attach b).stat := by
    intro b
    rcases eq_or_ne b a with rfl | hne
    · rw [Function.update_self]
    · rw [Function.update_of_ne hne]
  refine h.work hown rfl (Function.update_eq_self p s.id).symm rfl rfl rfl
    (by rw [hpc]; exact nofun) rfl hst (h.ids p) (fun b hb => ?_) fun b hb => ?_
  · have hb' : Function.update (s.mine p).att a false b = true := hb
    rcases eq_or_ne b a with rfl | hne
    · rw [Function.update_self] at hb'
      cases hb'
    · rw [Function.update_of_ne hne] at hb'
      obtain ⟨hlt, hs⟩ := h.attached _ b hb'
      exact ⟨hlt, (hstat b).symm ▸ hs⟩
  · exact (hstat b).symm ▸ hb

/-- The end of a close. -/
theorem Inv.closeFinish (h : Inv n natts s) (hown : s.Has p) (hpc : (s.id p).pc = .reopened) :
    Inv n natts (s.closeFinish p natts).1 := by
  obtain ⟨-, -, -, hst⟩ := h.owned _ _ hown
  rw [hpc] at hst
  have hquiet := (h.ids p).stopped (.inr hpc)
  rw [ClosingState.closeFinish]
  split
  · exact h.work hown (Function.update_eq_self ..).symm rfl rfl rfl rfl nofun rfl hst
      ⟨nofun, fun _ _ => hquiet, fun _ => hquiet⟩ (h.attached _) fun _ => id
  · exact h.release hown ⟨nofun, fun _ _ => hquiet, fun _ => hquiet⟩

/-- **One step** of which the condition holds keeps the invariant. -/
theorem Inv.step {a : ClosingStep} (h : Inv n natts s) (hok : a.Sound n s)
    (hstep : step n natts s a = some t) : Inv n natts t := by
  cases a <;> simp only [Closing.step, Option.ite_none_right_eq_some] at hstep
  case reserve p => exact h.reserve hstep.1 hstep.2
  case startThreads p =>
    obtain ⟨hpc, ht⟩ := hstep
    obtain ⟨-, -, -, hst⟩ := h.owned _ _ hok
    have hclosed := (h.ids p).fresh hpc
    rw [hpc] at hst
    rw [← Option.some.inj ht]
    refine h.work hok (Function.update_eq_self ..).symm rfl rfl rfl rfl nofun rfl hst
      ⟨nofun, fun hc _ => ?_, fun hp => hp.elim nofun nofun⟩ (h.attached _) fun _ => id
    exact nomatch hclosed.symm.trans hc
  case openFails p =>
    rw [← Option.some.inj hstep.2]
    exact h.release hok ⟨nofun, fun _ _ => rfl, fun _ => rfl⟩
  case markOpen p =>
    obtain ⟨hpc, ht⟩ := hstep
    rw [← Option.some.inj ht]
    refine h.work hok rfl rfl rfl rfl rfl nofun rfl (iff_of_true rfl rfl)
      ⟨nofun, fun hc _ => ?_, fun hp => hp.elim nofun nofun⟩ (h.attached _) fun _ => id
    exact (h.ids p).quiet hc (by rw [hpc]; exact nofun)
  case attach p stat =>
    obtain ⟨hpc, ht⟩ := hstep
    rw [← Option.some.inj ht]
    exact h.attach hok hpc stat
  case detach p a =>
    obtain ⟨hpc, ht⟩ := hstep
    rw [← Option.some.inj ht]
    exact h.detach hok hpc a
  case closeBegin p =>
    rw [← Option.some.inj hstep.2]
    exact h.work hok rfl rfl rfl rfl rfl nofun rfl (iff_of_false nofun nofun)
      ⟨nofun, fun _ hne => absurd rfl hne, fun hp => hp.elim nofun nofun⟩ (h.attached _) fun _ => id
  case stopThreads p =>
    obtain ⟨hpc, ht⟩ := hstep
    obtain ⟨-, -, -, hst⟩ := h.owned _ _ hok
    rw [hpc] at hst
    rw [← Option.some.inj ht]
    exact h.work hok (Function.update_eq_self ..).symm rfl rfl rfl rfl nofun rfl hst
      ⟨nofun, fun _ _ => rfl, fun _ => rfl⟩ (h.attached _) fun _ => id
  case closeReopen p =>
    obtain ⟨hpc, ht⟩ := hstep
    have hquiet := (h.ids p).stopped (.inl hpc)
    rw [← Option.some.inj ht]
    exact h.work hok rfl rfl rfl rfl rfl nofun rfl (iff_of_true rfl rfl)
      ⟨nofun, fun _ _ => hquiet, fun _ => hquiet⟩ (h.attached _) fun _ => id
  case closeFinish p =>
    obtain ⟨hpc, ht⟩ := hstep
    rw [← Option.some.inj ht]
    exact h.closeFinish hok hpc
  case cleanup i => exact Option.some.inj hstep.2 ▸ h.cleanup hok
  case setAlive p alive => exact Option.some.inj hstep ▸ h.setAlive p alive

end Invariant

/-! ## The calls -/

section Calls

variable {n natts : ℕ} {s : ClosingState} {p : ℕ}

/-- **Before the end of a close** the slot is open, the id is marked and the heartbeat is stopped,
whatever the end will be. -/
theorem closeReopen_eq (s : ClosingState) (p : ℕ) :
    ((s.closeBegin p).stopThreads p).closeReopen p = { s with
      proc := Function.update s.proc (s.me p) { s.mine p with status := .opened }
      id := Function.update s.id p ⟨.reopened, s.me p, true, false, (s.id p).alive⟩ } := by
  simp [ClosingState.closeBegin, ClosingState.stopThreads, ClosingState.closeReopen,
    ClosingState.setMine, ClosingState.setId, ClosingState.me, ClosingState.mine]

/-- A close is refused while the ET system lives and the process is attached. -/
def Refused (natts : ℕ) (s : ClosingState) (p : ℕ) : Prop :=
  (s.id p).alive = true ∧ ∃ a < natts, (s.mine p).att a = true

theorem etlClose_refused (h : Refused natts s p) :
    (s.etlClose p natts).2 = etError ∧
      (s.etlClose p natts).1.proc (s.me p) = { s.mine p with status := .opened } ∧
      (s.etlClose p natts).1.id p = ⟨.opened, s.me p, true, false, (s.id p).alive⟩ ∧
      (s.etlClose p natts).1.attach = s.attach := by
  have hyes : ((((s.closeBegin p).stopThreads p).closeReopen p).id p).alive = true ∧
      ∃ a < natts, ((((s.closeBegin p).stopThreads p).closeReopen p).mine p).att a = true := by
    rw [closeReopen_eq]
    simpa [ClosingState.mine, ClosingState.me, Refused] using h
  rw [ClosingState.etlClose, ClosingState.closeFinish, if_pos hyes, closeReopen_eq]
  refine ⟨rfl, ?_, ?_, rfl⟩
  · simp [ClosingState.setId]
  · simp [ClosingState.setId]

theorem etlClose_done (h : ¬ Refused natts s p) :
    (s.etlClose p natts).2 = etOk ∧ Gone s (s.etlClose p natts).1 p ∧
      (s.etlClose p natts).1.attach = s.attach := by
  have hno : ¬ (((((s.closeBegin p).stopThreads p).closeReopen p).id p).alive = true ∧
      ∃ a < natts, ((((s.closeBegin p).stopThreads p).closeReopen p).mine p).att a = true) := by
    rw [closeReopen_eq]
    simpa [ClosingState.mine, ClosingState.me, Refused] using h
  rw [ClosingState.etlClose, ClosingState.closeFinish, if_neg hno, closeReopen_eq]
  refine ⟨rfl, ⟨?_, ?_, rfl⟩, rfl⟩
  · simp [ClosingState.giveBack, ClosingState.setMine, ClosingState.setId, ClosingState.me]
  · simp [ClosingState.giveBack, ClosingState.setMine, ClosingState.setId]

/-- **When a close is all or nothing.** -/
theorem etlClose_allOrNothing_iff (h : Inv n natts s) (hpc : (s.id p).pc = .opened)
    (hown : s.Has p) : AllOrNothing s p false (s.etlClose p natts) ↔
      Refused natts s p → (s.id p).closed = true := by
  by_cases href : Refused natts s p
  · have hst : (s.mine p).status = .opened := by
      obtain ⟨-, -, -, hst⟩ := h.owned _ _ hown
      exact hst.mpr (by rw [hpc]; rfl)
    obtain ⟨herror, hproc, hid, hattach⟩ := etlClose_refused href
    constructor
    · rintro (⟨hok, -⟩ | ⟨-, hkept⟩) -
      · exact nomatch herror.symm.trans hok
      · have := hkept.closed
        rw [hid] at this
        exact this.symm
    · intro hclosed
      have hquiet := (h.ids p).quiet (hclosed href) (by rw [hpc]; exact nofun)
      refine .inr ⟨by rw [herror]; exact nofun, ?_, ?_, ?_, ?_, hattach⟩
      · rw [hproc]
        exact hst.symm
      · rw [hid]
        exact hquiet.symm
      · rw [hid]
        exact (hclosed href).symm
      · rw [hproc]
        rfl
  · obtain ⟨hok, hgone, -⟩ := etlClose_done href
    exact iff_of_true (.inl ⟨hok, hgone, nofun⟩) fun hr => absurd hr href

/-- The attachments in `l` are detached. -/
structure DetachedIn (s t : ClosingState) (p : ℕ) (l : List ℕ) : Prop where
  id : t.id = s.id
  nprocesses : t.nprocesses = s.nprocesses
  left : ∀ a, (t.mine p).att a = true → (s.mine p).att a = true ∧ a ∉ l
  detached : ∀ a ∈ l, (s.mine p).att a = true → (t.attach a).num = none
  num : ∀ a, (s.attach a).num = none → (t.attach a).num = none

/-- One attachment is detached. -/
theorem etStationDetach_done {a : ℕ} (hmax : natts ≤ etAttachmentsMax)
    (halive : (s.id p).alive = true) (hclosed : (s.id p).closed = false)
    (hlt : a < natts) (hstat : (s.attach a).stat ≠ none) :
    (s.etStationDetach p natts a).1 =
      { s.setMine p { s.mine p with att := Function.update (s.mine p).att a false } with
        attach := Function.update s.attach a { s.attach a with num := none } } := by
  rw [ClosingState.etStationDetach, if_neg (by omega), if_neg (by rw [halive]; exact nofun),
    if_neg (by rw [hclosed]; exact nofun), if_neg (by omega), if_neg hstat]

/-- **The loop of a forced close** detaches what it comes to. -/
theorem detachLoop_done (hmax : natts ≤ etAttachmentsMax) (l : List ℕ) (s : ClosingState)
    (halive : (s.id p).alive = true) (hclosed : (s.id p).closed = false)
    (hatt : ∀ a, (s.mine p).att a = true → a < natts ∧ (s.attach a).stat ≠ none) :
    DetachedIn s (ClosingState.detachLoop p natts l s) p l := by
  induction l generalizing s with
  | nil => exact ⟨rfl, rfl, fun a ha => ⟨ha, List.not_mem_nil⟩, nofun, fun _ => id⟩
  | cons a rest ih =>
      rw [ClosingState.detachLoop]
      split
      case isFalse hno =>
        obtain ⟨hid, hn, hleft, hdet, hnum⟩ := ih s halive hclosed hatt
        refine ⟨hid, hn, fun b hb => ?_, fun b hb hs => ?_, hnum⟩
        · obtain ⟨hs, hmem⟩ := hleft b hb
          refine ⟨hs, fun hm => (List.mem_cons.mp hm).elim ?_ hmem⟩
          rintro rfl
          exact hno hs
        · rcases List.mem_cons.mp hb with rfl | hb
          · exact absurd hs hno
          · exact hdet b hb hs
      case isTrue hyes =>
        obtain ⟨hlt, hstat⟩ := hatt a hyes
        rw [etStationDetach_done hmax halive hclosed hlt hstat]
        generalize ht : ({ s.setMine p { s.mine p with
            att := Function.update (s.mine p).att a false } with
          attach := Function.update s.attach a { s.attach a with num := none } } :
          ClosingState) = t
        have hid : t.id = s.id := by rw [← ht]; rfl
        have hatts : (t.mine p).att = Function.update (s.mine p).att a false := by
          rw [← ht]
          simp [ClosingState.mine, ClosingState.me, ClosingState.setMine]
        have hattach : t.attach = Function.update s.attach a { s.attach a with num := none } := by
          rw [← ht]
        have hsub : ∀ b, (t.mine p).att b = true → (s.mine p).att b = true ∧ b ≠ a := by
          intro b hb
          rw [hatts] at hb
          rcases eq_or_ne b a with rfl | hne
          · rw [Function.update_self] at hb
            cases hb
          · rw [Function.update_of_ne hne] at hb
            exact ⟨hb, hne⟩
        obtain ⟨hid', hn, hleft, hdet, hnum⟩ := ih t (by rw [hid]; exact halive)
          (by rw [hid]; exact hclosed) fun b hb => by
            obtain ⟨hs, hne⟩ := hsub b hb
            rw [hattach, Function.update_of_ne hne]
            exact hatt b hs
        have hnone : ∀ b, (s.attach b).num = none → (t.attach b).num = none := by
          intro b hb
          rw [hattach]
          rcases eq_or_ne b a with rfl | hne
          · rw [Function.update_self]
          · rwa [Function.update_of_ne hne]
        refine ⟨hid'.trans hid, hn.trans (by rw [← ht]; rfl), fun b hb => ?_, fun b hb hs => ?_,
          fun b hb => hnum b (hnone b hb)⟩
        · obtain ⟨hb', hmem⟩ := hleft b hb
          obtain ⟨hs, hne⟩ := hsub b hb'
          exact ⟨hs, fun hm => (List.mem_cons.mp hm).elim hne hmem⟩
        · rcases eq_or_ne b a with rfl | hne
          · refine hnum b ?_
            rw [hattach, Function.update_self]
          · refine hdet b ((List.mem_cons.mp hb).resolve_left hne) ?_
            rw [hatts, Function.update_of_ne hne]
            exact hs

/-- A closed id detaches nothing. -/
theorem detachLoop_closed (hclosed : (s.id p).closed = true) (l : List ℕ) :
    ClosingState.detachLoop p natts l s = s := by
  induction l with
  | nil => rfl
  | cons a rest ih =>
      have hsame : (s.etStationDetach p natts a).1 = s := by
        rw [ClosingState.etStationDetach]
        split_ifs
        · rfl
        · rfl
        · rfl
      rw [ClosingState.detachLoop, hsame, ih, ite_self]

/-- **When a forced close is all or nothing.** -/
theorem etlForcedclose_allOrNothing_iff (hmax : natts ≤ etAttachmentsMax) (h : Inv n natts s)
    (hpc : (s.id p).pc = .opened) (hown : s.Has p) :
    AllOrNothing s p true (s.etlForcedclose p natts) ↔
      (s.id p).alive = true ∨ Detached s s p := by
  rw [ClosingState.etlForcedclose]
  split
  case isFalse hdead =>
    have href : ¬ Refused natts s p := fun hr => hdead hr.1
    obtain ⟨hok, hgone, hattach⟩ := etlClose_done href
    have hiff : Detached s (s.etlClose p natts).1 p ↔ Detached s s p := by
      unfold Detached
      rw [hattach]
    constructor
    · rintro (⟨-, -, hdet⟩ | ⟨hno, -⟩)
      · exact .inr (hiff.mp (hdet rfl))
      · exact absurd hok hno
    · exact fun hd => .inl ⟨hok, hgone, fun _ => hiff.mpr (hd.resolve_left hdead)⟩
  case isTrue halive =>
    refine iff_of_true ?_ (.inl halive)
    cases hclosed : (s.id p).closed with
    | true =>
        rw [detachLoop_closed hclosed]
        rcases (etlClose_allOrNothing_iff h hpc hown).mpr fun _ => hclosed with ⟨hok, hgone, -⟩ | hkept
        · -- what is not refused has no attachments
          refine .inl ⟨hok, hgone, fun _ a ha => ?_⟩
          have href : ¬ Refused natts s p := fun hr =>
            nomatch (etlClose_refused hr).1.symm.trans hok
          exact absurd ⟨halive, a, (h.attached _ a ha).1, ha⟩ href
        · exact .inr hkept
    | false =>
        obtain ⟨hid, hn, hleft, hdet, -⟩ := detachLoop_done (p := p) hmax (List.range natts) s halive
          hclosed (h.attached _)
        generalize ClosingState.detachLoop p natts (List.range natts) s = t at *
        have hme : t.me p = s.me p := by
          unfold ClosingState.me
          rw [hid]
        have href : ¬ Refused natts t p := by
          rintro ⟨-, a, hlt, ha⟩
          exact (hleft a ha).2 (List.mem_range.mpr hlt)
        obtain ⟨hok, ⟨hfree, hstop, hless⟩, hattach⟩ := etlClose_done href
        rw [hme] at hfree
        refine .inl ⟨hok, ⟨hfree, hstop, hless.trans (by rw [hn])⟩, fun _ a ha => ?_⟩
        rw [hattach]
        exact hdet a (List.mem_range.mpr (h.attached _ a ha).1) ha

end Calls

/-- **The invariant in every run** of steps that meet the condition. -/
theorem inv_of_reach {n natts : ℕ} {s : ClosingState}
    (h : (machine n natts).Reach (ClosingStep.Sound n) s) : Inv n natts s := by
  refine h.invariant ?_ fun s a t hs hok hstep => hs.step hok hstep
  rintro s rfl
  exact inv_initial

/-- The steps by which process 0 opens the system and attaches to a station. -/
def openAndAttach : List ClosingStep := [.reserve 0, .startThreads 0, .markOpen 0, .attach 0 0]

theorem exists_attached (P : ClosingState → ClosingStep → Prop)
    (hP : ∀ s a, a.Sound 1 s → P s a) :
    ∃ s, (machine 1 1).Reach P s ∧ (s.id 0).pc = .opened ∧ s.Has 0 ∧ Refused 1 s 0 ∧
      (s.id 0).closed = false := by
  have hrun : ((Machine.runActs (step 1 1) (ClosingStep.Sound 1) openAndAttach .initial).map
      fun s => ((s.id 0).pc, s.owner (s.me 0), (s.id 0).alive, (s.mine 0).att 0,
        (s.id 0).closed)) = some (.opened, some 0, true, true, false) := by decide
  obtain ⟨s, hs, hval⟩ := Option.map_eq_some_iff.mp hrun
  simp only [Prod.mk.injEq] at hval
  obtain ⟨hpc, hown, halive, hatt, hclosed⟩ := hval
  have hinit : (machine 1 1).Reach (ClosingStep.Sound 1) .initial := .start rfl
  have hreach : (machine 1 1).Reach (ClosingStep.Sound 1) s := Machine.reach_of_runActs hinit hs
  exact ⟨s, hreach.weaken hP, hpc, hown, ⟨halive, 0, Nat.one_pos, hatt⟩, hclosed⟩

end Closing

end EventTransfer
