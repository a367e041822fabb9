import EventTransfer.Lib.StepRun

/-!
# The heart monitor

`et_sys_heartmonitor` cleans up after local processes that have died.  A process that
opens the ET system takes a slot of the `proc` table and starts a thread that increments
the slot's heartbeat.  In each round the monitor reads start time and heartbeat of the open
slots under the system mutex, and then looks at the slots one by one: an open slot whose
heartbeat is the one saved from an earlier round, with the start time saved with it, is
cleaned up.

The monitor, the processes and the table are one transition system here.  A process works
on the slot number it was given when it opened the system, whatever became of the slot
since; a process that dies is one that takes no further steps.

A slot is **condemned** while the monitor still has to look at it and the values read
equal the values saved.  Nothing the monitor does after reading can save a condemned slot,
although the process in it can beat, leave, or be followed by another one before the
monitor looks.  The monitor removes only dead processes as long as this does not happen
(`Undisturbed`).
-/

namespace EventTransfer

open StepRun

/-- `ET_PROC_CLOSED` and `ET_PROC_OPEN`. -/
inductive ProcStatus
  | closed
  | opened
  deriving DecidableEq, Repr

/-- `ET_HBMODULO`, which is `UINT_MAX`. -/
def etHbmodulo : ℕ := 4294967295

/-- An entry of the `proc` table (`et_proc`): `num` is `-1`, here `none`, in a free one. -/
structure ProcSlot where
  num : Option ℕ
  status : ProcStatus
  time : ℕ
  heartbeat : ℕ
  deriving DecidableEq, Repr

/-- `et_init_process`. -/
def ProcSlot.init : ProcSlot := ⟨none, .closed, 0, 0⟩

/-- How far a process is in `etl_open` and `etl_close`.  Its heartbeat thread runs from
`beating` to `closing`, and in `failing`. -/
inductive ProcPc
  | outside
  | reserved
  | beating
  | failing
  | opened
  | closing
  | stopped
  | reopened
  | refused
  deriving DecidableEq, Repr

/-- The heartbeat thread of the process runs. -/
def ProcPc.beats : ProcPc → Bool
  | .beating | .failing | .opened | .closing => true
  | _ => false

/-- A local process: how far it is, and `etid->proc`, the number of its slot. -/
structure Process where
  pc : ProcPc
  me : ℕ
  deriving DecidableEq, Repr

/-- The table, the processes, and the variables of the monitor: what it read last, what it
saved, and the slot it looks at next (past the table when it sleeps).

The last three fields record history and are read by no step.  `owner` is the process a
slot was last given to and not taken back from.  `fresh` says that this process beat, or
opened the system, since the monitor last read the slot; `wasFresh` that it did so between
the two last readings, the last of which was in the current round. -/
structure MonitorState where
  proc : ℕ → ProcSlot
  process : ℕ → Process
  newheartbt : ℕ → ℕ
  newTime : ℕ → ℕ
  oldheartbt : ℕ → ℕ
  oldTime : ℕ → ℕ
  look : ℕ
  owner : ℕ → Option ℕ
  fresh : ℕ → Bool
  wasFresh : ℕ → Bool

/-- The atomic steps.  A process (`p`) opens the system in three steps or fails to, beats,
and closes the system in four steps or is refused because it is attached; the monitor
reads, and looks at one slot. -/
inductive MonitorAct
  | reserve (p time : ℕ)
  | startHeartbeat (p : ℕ)
  | openFails (p : ℕ)
  | stopFailed (p : ℕ)
  | markOpen (p : ℕ)
  | beat (p : ℕ)
  | closeBegin (p : ℕ)
  | stopHeartbeat (p : ℕ)
  | closeReopen (p : ℕ)
  | closeDone (p : ℕ)
  | closeRefused (p : ℕ)
  | read
  | check
  deriving DecidableEq, Repr

namespace MonitorState

variable (n : ℕ) (s : MonitorState) (p i : ℕ)

/-- The process moves on to `pc`. -/
def setPc (pc : ProcPc) : MonitorState :=
  { s with process := Function.update s.process p { s.process p with pc := pc } }

/-- The status of the slot process `p` works on. -/
def setStatus (status : ProcStatus) : MonitorState :=
  let i := (s.process p).me
  { s with proc := Function.update s.proc i { s.proc i with status := status } }

/-- `et_init_process` on slot `i`: whoever had it is no longer its owner. -/
def initProcess : MonitorState :=
  { s with
    proc := Function.update s.proc i .init
    owner := Function.update s.owner i none
    fresh := Function.update s.fresh i false
    wasFresh := Function.update s.wasFresh i false }

/-- The process did something a living process does. -/
def refresh : MonitorState :=
  let i := (s.process p).me
  if s.owner i = some p then { s with fresh := Function.update s.fresh i true } else s

/-- The first free slot. -/
def freeSlot : Option ℕ := (List.range n).find? fun i => (s.proc i).num = none

/-- The locked section of `etl_open`: the process takes the first free slot. -/
def reserve (time : ℕ) : Option MonitorState :=
  (s.freeSlot n).map fun i =>
    { s with
      proc := Function.update s.proc i { s.proc i with num := some i, time := time }
      process := Function.update s.process p ⟨.reserved, i⟩
      owner := Function.update s.owner i (some p)
      fresh := Function.update s.fresh i false
      wasFresh := Function.update s.wasFresh i false }

/-- One increment by the heartbeat thread of `p`. -/
def heartbeat : MonitorState :=
  let i := (s.process p).me
  { s with proc := Function.update s.proc i
             { s.proc i with heartbeat := ((s.proc i).heartbeat + 1) % etHbmodulo } }

/-- The reading loop of the monitor, under the system mutex. -/
def readLoop : MonitorState :=
  { s with
    newTime := fun i =>
      if i < n ∧ (s.proc i).status = .opened then (s.proc i).time else s.newTime i
    newheartbt := fun i =>
      if i < n ∧ (s.proc i).status = .opened then (s.proc i).heartbeat else s.newheartbt i
    look := 0
    fresh := fun i => if i < n ∧ (s.proc i).status = .opened then false else s.fresh i
    wasFresh := fun i => if i < n ∧ (s.proc i).status = .opened then s.fresh i else false }

/-- The test the monitor makes for a slot: the values read are the values saved. -/
def Stale : Prop := s.oldheartbt i = s.newheartbt i ∧ s.oldTime i = s.newTime i

instance : Decidable (s.Stale i) := inferInstanceAs (Decidable (_ ∧ _))

/-- The body of the checking loop for slot `i`. -/
def checkSlot : MonitorState :=
  if (s.proc i).status ≠ .opened then s
  else if s.oldheartbt i ≠ s.newheartbt i then
    { s with
      oldheartbt := Function.update s.oldheartbt i (s.newheartbt i)
      oldTime := Function.update s.oldTime i (s.newTime i) }
  else if s.oldTime i ≠ s.newTime i then
    { s with oldTime := Function.update s.oldTime i (s.newTime i) }
  else { s.initProcess i with oldheartbt := Function.update s.oldheartbt i 0 }

/-- **The steps**; `none` when the process is elsewhere.  `n` is the size of the table. -/
def step (s : MonitorState) : MonitorAct → Option MonitorState
  | .reserve p time => if (s.process p).pc = .outside then s.reserve n p time else none
  | .startHeartbeat p => if (s.process p).pc = .reserved then s.setPc p .beating else none
  | .openFails p =>
      if (s.process p).pc = .reserved then (s.initProcess (s.process p).me).setPc p .outside
      else if (s.process p).pc = .beating then
        (s.initProcess (s.process p).me).setPc p .failing
      else none
  | .stopFailed p => if (s.process p).pc = .failing then s.setPc p .outside else none
  | .markOpen p =>
      if (s.process p).pc = .beating then ((s.setStatus p .opened).refresh p).setPc p .opened
      else none
  | .beat p => if (s.process p).pc.beats then (s.heartbeat p).refresh p else none
  | .closeBegin p =>
      if (s.process p).pc = .opened ∨ (s.process p).pc = .refused then
        (s.setStatus p .closed).setPc p .closing
      else none
  | .stopHeartbeat p => if (s.process p).pc = .closing then s.setPc p .stopped else none
  | .closeReopen p =>
      if (s.process p).pc = .stopped then (s.setStatus p .opened).setPc p .reopened else none
  | .closeDone p =>
      if (s.process p).pc = .reopened then (s.initProcess (s.process p).me).setPc p .outside
      else none
  | .closeRefused p => if (s.process p).pc = .reopened then s.setPc p .refused else none
  | .read => if n ≤ s.look then s.readLoop n else none
  | .check => if s.look < n then some { s.checkSlot s.look with look := s.look + 1 } else none

end MonitorState

/-- The monitor has just started and the table is empty.  `oldheartbt` and `oldTime` are
filled by `memset`; the other two arrays hold what was on the stack. -/
def MonitorState.initial (n : ℕ) (stackBeat stackTime : ℕ → ℕ) : MonitorState where
  proc _ := .init
  process _ := ⟨.outside, 0⟩
  newheartbt := stackBeat
  newTime := stackTime
  oldheartbt _ := etHbmodulo
  oldTime _ := 0
  look := n
  owner _ := none
  fresh _ := false
  wasFresh _ := false

/-- The heart monitor over a table of `n` slots. -/
def heartMonitor (n : ℕ) : Machine MonitorState MonitorAct :=
  .ofStep (fun s => ∃ stackBeat stackTime, s = .initial n stackBeat stackTime)
    (MonitorState.step n)

namespace MonitorState

variable {n : ℕ} {s t : MonitorState} {p i : ℕ}

/-- **Alive**: the process in the slot beat or opened the system since the monitor's previous
reading of the slot. -/
def Alive (s : MonitorState) (i : ℕ) : Prop := s.fresh i = true ∨ s.wasFresh i = true

instance (s : MonitorState) (i : ℕ) : Decidable (s.Alive i) :=
  inferInstanceAs (Decidable (_ ∨ _))

/-- **Condemned**: the monitor has yet to look at the slot, and will find what it saved. -/
def Condemned (n : ℕ) (s : MonitorState) (i : ℕ) : Prop := s.look ≤ i ∧ i < n ∧ s.Stale i

instance (n : ℕ) (s : MonitorState) (i : ℕ) : Decidable (s.Condemned n i) :=
  inferInstanceAs (Decidable (_ ∧ _ ∧ _))

/-- **Undisturbed steps.**  In a condemned slot nobody beats or declares the slot open, and
when the monitor reads a slot whose process is alive, heartbeat or start time are not the
ones saved. -/
def Undisturbed (n : ℕ) (s : MonitorState) : MonitorAct → Prop
  | .beat p => ¬ (s.owner (s.process p).me = some p ∧
      (s.proc (s.process p).me).status = .opened ∧ s.Condemned n (s.process p).me)
  | .markOpen p => ¬ (s.Condemned n (s.process p).me ∧
      (s.owner (s.process p).me = some p ∨ s.Alive (s.process p).me))
  | .closeReopen p => ¬ (s.Condemned n (s.process p).me ∧ s.Alive (s.process p).me)
  | .read => ∀ i < n, (s.proc i).status = .opened → s.fresh i = true →
      s.oldheartbt i ≠ (s.proc i).heartbeat ∨ s.oldTime i ≠ (s.proc i).time
  | _ => True

instance (n : ℕ) (s : MonitorState) : (a : MonitorAct) → Decidable (Undisturbed n s a)
  | .beat p => inferInstanceAs (Decidable (¬ (s.owner (s.process p).me = some p ∧
      (s.proc (s.process p).me).status = .opened ∧ s.Condemned n (s.process p).me)))
  | .markOpen p => inferInstanceAs (Decidable (¬ (s.Condemned n (s.process p).me ∧
      (s.owner (s.process p).me = some p ∨ s.Alive (s.process p).me))))
  | .closeReopen p => inferInstanceAs
      (Decidable (¬ (s.Condemned n (s.process p).me ∧ s.Alive (s.process p).me)))
  | .read => inferInstanceAs (Decidable (∀ i < n, (s.proc i).status = .opened →
      s.fresh i = true → s.oldheartbt i ≠ (s.proc i).heartbeat ∨ s.oldTime i ≠ (s.proc i).time))
  | .reserve _ _ | .startHeartbeat _ | .openFails _ | .stopFailed _ | .closeBegin _
  | .stopHeartbeat _ | .closeDone _ | .closeRefused _ | .check => isTrue trivial

/-- **The invariant**: no condemned slot that is open has a living process. -/
def Just (n : ℕ) (s : MonitorState) : Prop :=
  ∀ i, s.Condemned n i → (s.proc i).status = .opened → ¬ s.Alive i

theorem just_initial (stackBeat stackTime : ℕ → ℕ) : Just n (.initial n stackBeat stackTime) :=
  fun _ _ _ h => by simp [Alive, initial] at h

/-! ### One step -/

/-- A change that concerns slot `j` only and leaves the monitor alone. -/
structure Touches (s t : MonitorState) (j : ℕ) : Prop where
  newheartbt : t.newheartbt = s.newheartbt
  newTime : t.newTime = s.newTime
  oldheartbt : t.oldheartbt = s.oldheartbt
  oldTime : t.oldTime = s.oldTime
  look : t.look = s.look
  proc : ∀ i ≠ j, t.proc i = s.proc i
  fresh : ∀ i ≠ j, t.fresh i = s.fresh i
  wasFresh : ∀ i ≠ j, t.wasFresh i = s.wasFresh i

theorem Touches.condemned {j : ℕ} (h : Touches s t j) (i : ℕ) :
    t.Condemned n i ↔ s.Condemned n i := by
  simp only [Condemned, Stale, h.look, h.newheartbt, h.newTime, h.oldheartbt, h.oldTime]

/-- Such a change keeps the invariant if it keeps it for slot `j`. -/
theorem Just.touches {j : ℕ} (h : Just n s) (ht : Touches s t j)
    (hj : s.Condemned n j → (t.proc j).status = .opened → ¬ t.Alive j) : Just n t := by
  intro i hc ho
  rw [ht.condemned] at hc
  by_cases hi : i = j
  · rw [hi] at hc ho ⊢
    exact hj hc ho
  · rw [ht.proc i hi] at ho
    rw [Alive, ht.fresh i hi, ht.wasFresh i hi]
    exact h i hc ho

theorem Touches.setPc {j : ℕ} (h : Touches s t j) (p : ℕ) (pc : ProcPc) :
    Touches s (t.setPc p pc) j :=
  ⟨h.newheartbt, h.newTime, h.oldheartbt, h.oldTime, h.look, h.proc, h.fresh, h.wasFresh⟩

theorem Touches.refl (s : MonitorState) (j : ℕ) : Touches s s j :=
  ⟨rfl, rfl, rfl, rfl, rfl, fun _ _ => rfl, fun _ _ => rfl, fun _ _ => rfl⟩

theorem touches_initProcess (s : MonitorState) (j : ℕ) : Touches s (s.initProcess j) j :=
  ⟨rfl, rfl, rfl, rfl, rfl, fun _ h => Function.update_of_ne h _ _,
    fun _ h => Function.update_of_ne h _ _, fun _ h => Function.update_of_ne h _ _⟩

theorem touches_setStatus (s : MonitorState) (p : ℕ) (status : ProcStatus) :
    Touches s (s.setStatus p status) (s.process p).me :=
  ⟨rfl, rfl, rfl, rfl, rfl, fun _ h => Function.update_of_ne h _ _, fun _ _ => rfl,
    fun _ _ => rfl⟩

theorem touches_refresh (s : MonitorState) (p : ℕ) :
    Touches s (s.refresh p) (s.process p).me := by
  rw [refresh]
  split
  case isTrue =>
    exact ⟨rfl, rfl, rfl, rfl, rfl, fun _ _ => rfl, fun _ h => Function.update_of_ne h _ _,
      fun _ _ => rfl⟩
  case isFalse => exact Touches.refl _ _

theorem touches_heartbeat (s : MonitorState) (p : ℕ) :
    Touches s (s.heartbeat p) (s.process p).me :=
  ⟨rfl, rfl, rfl, rfl, rfl, fun _ h => Function.update_of_ne h _ _, fun _ _ => rfl,
    fun _ _ => rfl⟩

theorem Touches.trans {r : MonitorState} {j : ℕ} (h : Touches r s j) (h' : Touches s t j) :
    Touches r t j :=
  ⟨h'.newheartbt.trans h.newheartbt, h'.newTime.trans h.newTime,
    h'.oldheartbt.trans h.oldheartbt, h'.oldTime.trans h.oldTime, h'.look.trans h.look,
    fun i hi => (h'.proc i hi).trans (h.proc i hi),
    fun i hi => (h'.fresh i hi).trans (h.fresh i hi),
    fun i hi => (h'.wasFresh i hi).trans (h.wasFresh i hi)⟩

/-- A slot that is given back is closed. -/
theorem Just.initProcess (h : Just n s) (j : ℕ) : Just n (s.initProcess j) := by
  refine h.touches (touches_initProcess s j) fun _ ho => ?_
  simp [MonitorState.initProcess, ProcSlot.init] at ho

theorem Just.setPc (h : Just n s) (p : ℕ) (pc : ProcPc) : Just n (s.setPc p pc) := h

/-- A new owner has done nothing yet. -/
theorem Just.reserve (h : Just n s) {time : ℕ} (ht : s.reserve n p time = some t) :
    Just n t := by
  rw [MonitorState.reserve, Option.map_eq_some_iff] at ht
  obtain ⟨j, -, rfl⟩ := ht
  refine h.touches (j := j) ⟨rfl, rfl, rfl, rfl, rfl, fun _ hi => Function.update_of_ne hi _ _,
    fun _ hi => Function.update_of_ne hi _ _, fun _ hi => Function.update_of_ne hi _ _⟩ ?_
  intro _ _
  simp [Alive]

theorem Just.markOpen (h : Just n s) (hok : Undisturbed n s (.markOpen p)) :
    Just n (((s.setStatus p .opened).refresh p).setPc p .opened) := by
  refine h.touches (j := (s.process p).me)
    (((touches_setStatus s p _).trans (touches_refresh _ p)).setPc p _) fun hc _ => ?_
  have hnot : ¬ (s.owner (s.process p).me = some p ∨ s.Alive (s.process p).me) := by
    intro ha
    exact hok ⟨hc, ha⟩
  rw [not_or] at hnot
  have hrefresh : (s.setStatus p .opened).refresh p = s.setStatus p .opened := by
    rw [refresh]
    exact if_neg hnot.1
  rw [hrefresh]
  exact hnot.2

theorem Just.beat (h : Just n s) (hok : Undisturbed n s (.beat p)) :
    Just n ((s.heartbeat p).refresh p) := by
  refine h.touches (j := (s.process p).me)
    ((touches_heartbeat s p).trans (touches_refresh _ p)) fun hc ho => ?_
  have hstatus : ∀ r : MonitorState, r = s.heartbeat p →
      ((r.refresh p).proc (s.process p).me).status = (s.proc (s.process p).me).status := by
    rintro r rfl
    rw [refresh]
    split <;> simp [heartbeat]
  rw [hstatus _ rfl] at ho
  have howner : ¬ s.owner (s.process p).me = some p := by
    intro howner
    exact hok ⟨howner, ho, hc⟩
  have hrefresh : (s.heartbeat p).refresh p = s.heartbeat p := by
    rw [refresh]
    exact if_neg howner
  rw [hrefresh]
  exact h _ hc ho

theorem Just.setStatus (h : Just n s) {status : ProcStatus}
    (hok : status = .opened → ¬ (s.Condemned n (s.process p).me ∧ s.Alive (s.process p).me)) :
    Just n (s.setStatus p status) := by
  refine h.touches (touches_setStatus s p status) fun hc ho => ?_
  have hs : status = .opened := by simpa [MonitorState.setStatus] using ho
  intro ha
  exact hok hs ⟨hc, ha⟩

/-- Reading a living process, the monitor finds something new. -/
theorem Just.readLoop (hok : Undisturbed n s .read) : Just n (s.readLoop n) := by
  rintro i ⟨-, hi, hstale⟩ ho
  have ho' : (s.proc i).status = .opened := ho
  simp only [Stale, MonitorState.readLoop, hi, ho', and_self, if_true] at hstale
  simp only [Alive, MonitorState.readLoop, hi, ho', and_self, if_true]
  rintro (hf | hf)
  · exact Bool.noConfusion hf
  · rcases hok i hi ho' hf with hb | ht
    · exact hb hstale.1
    · exact ht hstale.2

/-- The monitor looks at one slot; the other slots stay as they are. -/
theorem Just.check (h : Just n s) :
    Just n { s.checkSlot s.look with look := s.look + 1 } := by
  rintro i ⟨hlook, hi, hstale⟩ ho
  dsimp only at hlook
  have hne : i ≠ s.look := by omega
  have hsame : (s.checkSlot s.look).proc i = s.proc i ∧
      (s.checkSlot s.look).fresh i = s.fresh i ∧
      (s.checkSlot s.look).wasFresh i = s.wasFresh i ∧
      ((s.checkSlot s.look).Stale i ↔ s.Stale i) := by
    rw [checkSlot]
    split
    · simp
    · split
      · simp [Stale, hne]
      · split
        · simp [Stale, hne]
        · simp [Stale, MonitorState.initProcess, hne]
  obtain ⟨hproc, hfresh, hwas, hst⟩ := hsame
  have ho' : (s.proc i).status = .opened := by
    rw [← hproc]
    exact ho
  have hc : s.Condemned n i := ⟨by omega, hi, hst.mp hstale⟩
  show ¬ ((s.checkSlot s.look).fresh i = true ∨ (s.checkSlot s.look).wasFresh i = true)
  rw [hfresh, hwas]
  exact h i hc ho'

/-- **One undisturbed step** keeps the invariant. -/
theorem Just.step {a : MonitorAct} (h : Just n s) (hok : Undisturbed n s a)
    (hstep : s.step n a = some t) : Just n t := by
  cases a <;> simp only [MonitorState.step, Option.ite_none_right_eq_some] at hstep
  case reserve p time => exact h.reserve hstep.2
  case startHeartbeat p => exact Option.some.inj hstep.2 ▸ h.setPc _ _
  case openFails p =>
    split at hstep
    · exact Option.some.inj hstep ▸ (h.initProcess _).setPc _ _
    · rw [Option.ite_none_right_eq_some] at hstep
      exact Option.some.inj hstep.2 ▸ (h.initProcess _).setPc _ _
  case stopFailed p => exact Option.some.inj hstep.2 ▸ h.setPc _ _
  case markOpen p => exact Option.some.inj hstep.2 ▸ h.markOpen hok
  case beat p => exact Option.some.inj hstep.2 ▸ h.beat hok
  case closeBegin p =>
    have hclose : Just n (s.setStatus p .closed) := h.setStatus fun hs => nomatch hs
    exact Option.some.inj hstep.2 ▸ hclose.setPc _ _
  case stopHeartbeat p => exact Option.some.inj hstep.2 ▸ h.setPc _ _
  case closeReopen p => exact Option.some.inj hstep.2 ▸ (h.setStatus fun _ => hok).setPc _ _
  case closeDone p => exact Option.some.inj hstep.2 ▸ (h.initProcess _).setPc _ _
  case closeRefused p => exact Option.some.inj hstep.2 ▸ h.setPc _ _
  case read => exact Option.some.inj hstep.2 ▸ Just.readLoop hok
  case check => exact Option.some.inj hstep.2 ▸ h.check

end MonitorState

/-! ### Whole runs -/

open MonitorState

/-- **The heart monitor removes only dead processes**, in every run without disturbance:
when the monitor looks at a slot, a living process keeps it. -/
theorem heartmonitor_spares_living {n : ℕ} {s t : MonitorState} {i p : ℕ}
    (run : (heartMonitor n).Reach (Undisturbed n) s) (hcheck : s.step n .check = some t)
    (howner : s.owner i = some p) (halive : s.Alive i) :
    t.owner i = some p ∧ t.proc i = s.proc i := by
  have hjust : Just n s := by
    refine run.invariant ?_ fun s a t h hok hstep => h.step hok hstep
    rintro s ⟨stackBeat, stackTime, rfl⟩
    exact just_initial stackBeat stackTime
  simp only [MonitorState.step, Option.ite_none_right_eq_some] at hcheck
  obtain ⟨hlook, ht⟩ := hcheck
  rw [← Option.some.inj ht]
  show (s.checkSlot s.look).owner i = some p ∧ (s.checkSlot s.look).proc i = s.proc i
  rw [checkSlot]
  split
  · exact ⟨howner, rfl⟩
  · split
    · exact ⟨howner, rfl⟩
    · split
      · exact ⟨howner, rfl⟩
      case isFalse hopen hbeat htime =>
        -- the slot is cleaned up, so it is not slot `i`
        have hne : i ≠ s.look := by
          rintro rfl
          rw [not_not] at hopen hbeat htime
          exact hjust _ ⟨le_rfl, hlook, hbeat, htime⟩ hopen halive
        simp [MonitorState.initProcess, hne, howner]

/-- The steps by which process `p` opens the system and the monitor saves its heartbeat and
its start time, in a table of one slot. -/
def openAndSaved (p time : ℕ) : List MonitorAct :=
  [.reserve p time, .startHeartbeat p, .beat p, .markOpen p, .read, .check]

/-- The monitor over a table of one slot, with zeros on its stack. -/
def oneSlot : MonitorState := .initial 1 (fun _ => 0) fun _ => 0

theorem reach_oneSlot (P : MonitorState → MonitorAct → Prop) :
    (heartMonitor 1).Reach P oneSlot := .start ⟨_, _, rfl⟩

/-- A process that beats once between two rounds survives the second one. -/
theorem heartmonitor_spares_living_example :
    ∃ s t, (heartMonitor 1).Reach (Undisturbed 1) s ∧ s.step 1 .check = some t ∧
      t.owner 0 = some 0 ∧ t.proc 0 = s.proc 0 := by
  have hrun : ((Machine.runActs (MonitorState.step 1) (Undisturbed 1)
      (openAndSaved 0 5 ++ [.beat 0, .read]) oneSlot).map fun s =>
        (s.owner 0, decide (s.Alive 0), (s.step 1 .check).isSome)) =
      some (some 0, true, true) := by decide
  obtain ⟨s, hs, hval⟩ := Option.map_eq_some_iff.mp hrun
  simp only [Prod.mk.injEq, decide_eq_true_eq] at hval
  obtain ⟨howner, halive, hcheck⟩ := hval
  obtain ⟨t, ht⟩ := Option.isSome_iff_exists.mp hcheck
  have run := Machine.reach_of_runActs (reach_oneSlot (Undisturbed 1)) hs
  exact ⟨s, t, run, ht, heartmonitor_spares_living run ht howner halive⟩

/-- **A new process is removed for the old one's silence.**  Process 0 closes the system, so
the monitor does not read its slot again; process 1 takes the slot after the reading and
before the monitor looks. -/
theorem heartmonitor_removes_new_process :
    ∃ s t, (heartMonitor 1).Reach (fun _ _ => True) s ∧ s.step 1 .check = some t ∧
      s.owner 0 = some 1 ∧ s.Alive 0 ∧ t.owner 0 = none := by
  have hrun : ((Machine.runActs (MonitorState.step 1) (fun _ _ => True)
      (openAndSaved 0 5 ++ [.closeBegin 0, .stopHeartbeat 0, .closeReopen 0, .closeDone 0,
        .read, .reserve 1 9, .startHeartbeat 1, .beat 1, .markOpen 1]) oneSlot).map fun s =>
        (s.owner 0, decide (s.Alive 0), (s.step 1 .check).map fun t => t.owner 0)) =
      some (some 1, true, some none) := by decide
  obtain ⟨s, hs, hval⟩ := Option.map_eq_some_iff.mp hrun
  simp only [Prod.mk.injEq, decide_eq_true_eq] at hval
  obtain ⟨howner, halive, hcheck⟩ := hval
  obtain ⟨t, ht, htowner⟩ := Option.map_eq_some_iff.mp hcheck
  exact ⟨s, t, Machine.reach_of_runActs (reach_oneSlot _) hs, ht, howner, halive, htowner⟩

end EventTransfer
