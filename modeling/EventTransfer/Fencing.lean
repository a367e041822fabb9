import EventTransfer.HeartMonitor
import EventTransfer.Station

/-!
# What a process can do after its clean-up

The heart monitor cleans up after a process whose heartbeat has stopped: it detaches the
process's attachments and gives its slot back.  It does not kill the process, which may only
have been slow.  Slots and attachments are small numbers that are given out again, and the slow
process still has its old ones: its heartbeat thread increments the heartbeat of its slot
number, `etl_close` sets the status of that slot and initializes it, `et_station_attach` and
`et_station_detach` change the counters of that slot, and the event calls work for the
attachment number they are given.

This is the transition system of `EventTransfer.HeartMonitor` together with the attachments and
with the owners of the events.  `et_station_attach`, `et_station_detach` and a clean-up are one
step each, as they hold the station and system mutexes.  An event call goes through several
steps, between which its process can stall.

The code has no mark by which to tell a slot or an attachment from an earlier one of the same
number.  So a late step spares the others only as long as the number it uses is free
(`FenceState.Unshared`).
-/

namespace EventTransfer

open StepRun

/-- The sizes of the tables (`sys->config`). -/
structure TableSizes where
  nprocesses : ℕ
  nattachments : ℕ
  nstations : ℕ

/-- The part of a slot of the `proc` table that has to do with attachments; `att` says which
elements of the array are not `-1`. -/
structure ProcAtts where
  nattachments : ℤ
  att : ℕ → Bool

/-- `et_init_process`. -/
def ProcAtts.init : ProcAtts := ⟨0, fun _ => false⟩

/-- An entry of the `attach` table (`et_attach`): `num`, `proc` and `stat` are `-1`, here
`none`, in a new one. -/
structure AttachEntry where
  num : Option ℕ
  proc : Option ℕ
  stat : Option ℕ
  active : Bool
  blocked : Bool
  eventsPut : ℕ
  eventsGet : ℕ
  eventsDump : ℕ
  eventsMake : ℕ
  deriving DecidableEq, Repr

/-- `et_init_attachment`. -/
def AttachEntry.init : AttachEntry := ⟨none, none, none, false, false, 0, 0, 0, 0⟩

/-- The data of a station that have to do with attachments. -/
structure AttStation where
  status : StatStatus
  nattachments : ℤ
  userMode : ℤ
  att : ℕ → Bool

/-- **How far an event call is.**  `fresh` says that it is `et_event_new` or `et_events_new`,
`dump` that it is `et_event_dump` or `et_events_dump`. -/
inductive EventCall
  | none
  | reading (a : ℕ) (fresh : Bool)
  | waiting (a : ℕ) (fresh : Bool)
  | got (a num : ℕ) (fresh : Bool)
  | writing (a : ℕ) (es : List ℕ) (dump : Bool)
  | written (a num : ℕ) (dump : Bool)
  deriving DecidableEq, Repr

/-- **The system**: the heart monitor and the processes, the attachments, the owners of the
events (`none` is `ET_SYS`), and the event call each process is in.

The last two fields record history and are read by no step: `attOf` is the process an
attachment was last given to and not taken back from, and `cleaned` says that the monitor has
cleaned up the process's slot since it opened the system. -/
structure FenceState where
  mon : MonitorState
  atts : ℕ → ProcAtts
  attach : ℕ → AttachEntry
  stat : ℕ → AttStation
  nattachments : ℤ
  owner : ℕ → Option ℕ
  call : ℕ → EventCall
  attOf : ℕ → Option ℕ
  cleaned : ℕ → Bool

/-- The steps: those of the monitor and of `et_open` and `et_close`, and the others of a
process `p`. -/
inductive FenceAct
  | base (a : MonitorAct)
  | attach (p st : ℕ)
  | detach (p a : ℕ)
  | get (p a : ℕ) (fresh : Bool)
  | wait (p : ℕ)
  | wake (p : ℕ)
  | take (p : ℕ) (es : List ℕ)
  | countGot (p : ℕ)
  | put (p a : ℕ) (es : List ℕ) (dump : Bool)
  | link (p : ℕ)
  | countPut (p : ℕ)
  deriving DecidableEq, Repr

/-- The process that makes the step; the monitor's are nobody's. -/
def MonitorAct.actor : MonitorAct → Option ℕ
  | .reserve p _ | .startHeartbeat p | .openFails p | .stopFailed p | .markOpen p | .beat p
  | .closeBegin p | .stopHeartbeat p | .closeReopen p | .closeDone p | .closeRefused p => some p
  | .read | .check => none

@[inherit_doc MonitorAct.actor] def FenceAct.actor : FenceAct → Option ℕ
  | .base a => a.actor
  | .attach p _ | .detach p _ | .get p _ _ | .wait p | .wake p | .take p _ | .countGot p
  | .put p _ _ _ | .link p | .countPut p => some p

/-- The steps by which a process changes the slot it works on. -/
def MonitorAct.changesSlot : MonitorAct → Bool
  | .openFails _ | .markOpen _ | .beat _ | .closeBegin _ | .closeReopen _ | .closeDone _ => true
  | _ => false

/-- The steps of event calls. -/
def FenceAct.isCall : FenceAct → Bool
  | .base _ | .attach _ _ | .detach _ _ => false
  | _ => true

/-- The steps of an event call that change the attachment it works for. -/
def FenceAct.changesAttach : FenceAct → Bool
  | .wait _ | .wake _ | .countGot _ | .countPut _ => true
  | _ => false

namespace FenceState

variable (c : TableSizes) (s : FenceState)

/-- The slot process `p` works on. -/
def me (p : ℕ) : ℕ := (s.mon.process p).me

def setAttach (a : ℕ) (e : AttachEntry) : FenceState :=
  { s with attach := Function.update s.attach a e }

def setAtts (i : ℕ) (r : ProcAtts) : FenceState :=
  { s with atts := Function.update s.atts i r }

def setCall (p : ℕ) (call : EventCall) : FenceState :=
  { s with call := Function.update s.call p call }

/-- The first free entry of the `attach` table. -/
def freeAttach : Option ℕ :=
  (List.range c.nattachments).find? fun a => (s.attach a).num = none

/-- `et_station_attach`, from the lock of the station mutex to its unlock. -/
def attachTo (p st : ℕ) : Option FenceState :=
  let ps := s.stat st
  if ps.status ≠ .active ∧ ps.status ≠ .idle then none
  else if 0 < ps.userMode ∧ ps.userMode ≤ ps.nattachments then none
  else if (c.nattachments : ℤ) ≤ s.nattachments then none
  else (s.freeAttach c).map fun a =>
    { s with
      nattachments := s.nattachments + 1
      attach := Function.update s.attach a { AttachEntry.init with
        num := some a, proc := some (s.me p), stat := some st, active := true }
      atts := Function.update s.atts (s.me p)
        ⟨(s.atts (s.me p)).nattachments + 1, Function.update (s.atts (s.me p)).att a true⟩
      stat := Function.update s.stat st
        { ps with
          nattachments := ps.nattachments + 1
          att := Function.update ps.att a true
          status := .active }
      attOf := Function.update s.attOf a (some p) }

/-- The part of `et_station_detach` that a clean-up makes too.  `et_flush_events` and
`et_restore_events` leave no event with the attachment. -/
def detachFrom (a st : ℕ) : FenceState :=
  let ps := s.stat st
  { s with
    attach := Function.update s.attach a { s.attach a with num := none, active := false }
    nattachments := s.nattachments - 1
    stat := Function.update s.stat st
      { ps with
        status := if ps.nattachments = 1 ∧ st ≠ 0 then .idle else ps.status
        nattachments := ps.nattachments - 1
        att := Function.update ps.att a false }
    owner := fun e => if s.owner e = some a then none else s.owner e
    attOf := Function.update s.attOf a none }

/-- `et_station_detach` by the ET system; without a station it changes nothing. -/
def cleanupDetach (a : ℕ) : FenceState :=
  match (s.attach a).stat with
  | some st => s.detachFrom a st
  | none => s

/-- `et_station_detach` by process `p`. -/
def detachBy (p a : ℕ) : Option FenceState :=
  (s.attach a).stat.map fun st =>
    (s.detachFrom a st).setAtts (s.me p)
      ⟨(s.atts (s.me p)).nattachments - 1, Function.update (s.atts (s.me p)).att a false⟩

/-- The attachment is in use, but no active station knows of it. -/
def Lost (a : ℕ) : Prop :=
  (s.attach a).num ≠ none ∧
    ∀ st < c.nstations, ¬ ((s.stat st).att a = true ∧ (s.stat st).status = .active)

instance (a : ℕ) : Decidable (s.Lost c a) := inferInstanceAs (Decidable (_ ∧ _))

/-- The body of the loop of `et_fix_attachments`. -/
def fixAttachment (a : ℕ) : FenceState :=
  if s.Lost c a then
    { s with
      atts := fun i =>
        if i < c.nprocesses then
          ⟨(s.atts i).nattachments, Function.update (s.atts i).att a false⟩
        else s.atts i
      attach := Function.update s.attach a .init
      nattachments := s.nattachments - 1
      attOf := Function.update s.attOf a none }
  else s

/-- `et_fix_attachments`. -/
def fixAttachments : FenceState :=
  (List.range c.nattachments).foldl (fun s a => s.fixAttachment c a) s

/-- The number of set elements of an array of attachments. -/
def countAtts (att : ℕ → Bool) : ℤ := ((List.range c.nattachments).countP att : ℕ)

/-- `et_fix_natts`. -/
def fixNatts : FenceState :=
  let stat := fun st =>
    if st < c.nstations ∧ (s.stat st).status = .active then
      { s.stat st with nattachments := countAtts c (s.stat st).att }
    else s.stat st
  { s with
    stat := stat
    nattachments := ((List.range c.nstations).map fun st =>
      if (s.stat st).status = .active then (stat st).nattachments else 0).sum
    atts := fun i =>
      if i < c.nprocesses ∧ (s.mon.proc i).status = .opened then
        ⟨countAtts c (s.atts i).att, (s.atts i).att⟩
      else s.atts i }

/-- `et_init_process` on slot `i`. -/
def initSlot (i : ℕ) : FenceState :=
  { s with mon := s.mon.initProcess i, atts := Function.update s.atts i .init }

/-- The loop that detaches the attachments of slot `i`. -/
def detachAll (i : ℕ) : FenceState :=
  (List.range c.nattachments).foldl
    (fun s a => if (s.atts i).att a then s.cleanupDetach a else s) s

/-- The process whose slot is cleaned up is marked. -/
def markCleaned (i : ℕ) : FenceState :=
  match s.mon.owner i with
  | some p => { s with cleaned := Function.update s.cleaned p true }
  | none => s

/-- **The clean-up** of slot `i`, without the variables of the monitor. -/
def cleanUp (i : ℕ) : FenceState :=
  ((((s.markCleaned i).fixAttachments c).detachAll c i).initSlot i).fixNatts c

/-- The monitor looks at a slot (`MonitorState.checkSlot`), and cleans it up if the heartbeat
read is the one saved. -/
def checkStep : FenceState :=
  let i := s.mon.look
  let t := if (s.mon.proc i).status = .opened ∧ s.mon.Stale i then s.cleanUp c i else s
  { t with mon := { s.mon.checkSlot i with look := i + 1 } }

/-- `etl_close` is refused while the slot has attachments, if the system is alive. -/
def Attached (p : ℕ) : Prop := ∃ a < c.nattachments, (s.atts (s.me p)).att a = true

instance (p : ℕ) : Decidable (s.Attached c p) := inferInstanceAs (Decidable (∃ _, _ ∧ _))

/-- The steps of `et_open`, `et_close` and the monitor, and what they do to the rest. -/
def baseStep (a : MonitorAct) : Option FenceState :=
  (s.mon.step c.nprocesses a).bind fun mon =>
    match a with
    | .reserve p _ => some { s with mon := mon, cleaned := Function.update s.cleaned p false }
    -- a call under way holds the lock that `etl_close` takes
    | .closeBegin p => if s.call p = .none then some { s with mon := mon } else none
    -- with attachments too, where the process takes the system for dead
    | .closeDone p => some { s.setAtts (s.me p) .init with mon := mon }
    | .closeRefused p => if s.Attached c p then some { s with mon := mon } else none
    | .openFails p => some { s.setAtts (s.me p) .init with mon := mon }
    | .check => some (s.checkStep c)
    | _ => some { s with mon := mon }

/-- The process has opened the system, has not closed it, and is in no event call. -/
def Ready (p : ℕ) : Prop := (s.mon.process p).pc = .opened ∧ s.call p = .none

instance (p : ℕ) : Decidable (s.Ready p) := inferInstanceAs (Decidable (_ ∧ _))

/-- One step of an event call.  `get` finds the attachment active and `put` finds the events
owned by it; a read takes events of a list. -/
def callStep : FenceAct → Option FenceState
  | .get p a fresh =>
      if s.Ready p ∧ (s.attach a).active then some (s.setCall p (.reading a fresh)) else none
  | .wait p =>
      match s.call p with
      | .reading a fresh =>
          some ((s.setAttach a { s.attach a with blocked := true }).setCall p (.waiting a fresh))
      | _ => none
  | .wake p =>
      match s.call p with
      | .waiting a fresh =>
          some ((s.setAttach a { s.attach a with blocked := false }).setCall p (.reading a fresh))
      | _ => none
  | .take p es =>
      match s.call p with
      | .reading a fresh =>
          if ∀ e ∈ es, s.owner e = none then
            some ({ s with owner := fun e => if e ∈ es then some a else s.owner e }.setCall p
              (if es = [] then .none else .got a es.length fresh))
          else none
      | _ => none
  | .countGot p =>
      match s.call p with
      | .got a num fresh =>
          some ((s.setAttach a
            (if fresh then { s.attach a with eventsMake := (s.attach a).eventsMake + num }
            else { s.attach a with eventsGet := (s.attach a).eventsGet + num })).setCall p .none)
      | _ => none
  | .put p a es dump =>
      if s.Ready p ∧ ∀ e ∈ es, s.owner e = some a then some (s.setCall p (.writing a es dump))
      else none
  | .link p =>
      match s.call p with
      | .writing a es dump =>
          some ({ s with owner := fun e => if e ∈ es then none else s.owner e }.setCall p
            (.written a es.length dump))
      | _ => none
  | .countPut p =>
      match s.call p with
      | .written a num dump =>
          some ((s.setAttach a
            (if dump then { s.attach a with eventsDump := (s.attach a).eventsDump + num }
            else { s.attach a with eventsPut := (s.attach a).eventsPut + num })).setCall p .none)
      | _ => none
  | _ => none

/-- **The steps.** -/
def step : FenceAct → Option FenceState
  | .base a => s.baseStep c a
  | .attach p st => if s.Ready p ∧ st < c.nstations then s.attachTo c p st else none
  | .detach p a => if s.Ready p ∧ a < c.nattachments then s.detachBy p a else none
  | act => s.callStep act

end FenceState

/-- The attachment an event call works for. -/
def EventCall.att : EventCall → Option ℕ
  | .none => Option.none
  | .reading a _ | .waiting a _ | .got a _ _ | .writing a _ _ | .written a _ _ => some a

/-- At the start the tables are empty and nobody has opened the system. -/
def FenceState.Start (s : FenceState) : Prop :=
  (∃ n stackBeat stackTime, s.mon = .initial n stackBeat stackTime) ∧
    s.atts = (fun _ => .init) ∧ s.attach = (fun _ => .init) ∧
    (∀ st, (s.stat st).nattachments = 0 ∧ (s.stat st).att = fun _ => false) ∧
    s.nattachments = 0 ∧ s.owner = (fun _ => none) ∧ s.call = (fun _ => .none) ∧
    s.attOf = (fun _ => none) ∧ s.cleaned = fun _ => false

/-- The system with tables of the given sizes. -/
def fencing (c : TableSizes) : Machine FenceState FenceAct :=
  .ofStep (fun s => s.Start ∧ s.mon.look = c.nprocesses) (FenceState.step c)

/-! ## Late steps -/

/-- **A step of `p` that leaves the others alone**: their slots, heartbeats and counters, their
attachments, and the owners of their events. -/
structure Spares (s t : FenceState) (p : ℕ) : Prop where
  slot : ∀ i q, s.mon.owner i = some q → q ≠ p →
    t.mon.proc i = s.mon.proc i ∧ t.atts i = s.atts i
  attach : ∀ a q, s.attOf a = some q → q ≠ p → t.attach a = s.attach a
  events : ∀ e a q, s.owner e = some a → s.attOf a = some q → q ≠ p → t.owner e = some a

namespace FenceState

variable (s : FenceState)

/-- If the slot of `p` was cleaned up, nobody has it now. -/
def SlotFree (p : ℕ) : Prop := s.cleaned p = true → (s.mon.proc (s.me p)).num = none

/-- If the slot of `p` was cleaned up, nobody has the attachment now, or `p` was given it
since. -/
def AttFree (p a : ℕ) : Prop :=
  s.cleaned p = true → (s.attach a).num = none ∨ s.attOf a = some p

/-- **Steps through numbers that are not shared.**  A process that was cleaned up works on its
slot and on an attachment only while nobody else has them, and writes only events that are
still this attachment's or the system's. -/
def Unshared : FenceAct → Prop
  | .base a => a.changesSlot = true → ∀ p ∈ a.actor, s.SlotFree p
  | .attach p _ => s.SlotFree p
  | .detach p a => s.SlotFree p ∧ s.AttFree p a
  | .wait p | .wake p | .countGot p | .countPut p =>
      ∀ a ∈ (s.call p).att, s.AttFree p a
  | .link p =>
      match s.call p with
      | .writing a es _ => s.AttFree p a ∧
          (s.cleaned p = true → ∀ e ∈ es, s.owner e = none ∨ s.owner e = some a)
      | _ => True
  | _ => True

instance (p : ℕ) : Decidable (s.SlotFree p) := inferInstanceAs (Decidable (_ → _))

instance (p a : ℕ) : Decidable (s.AttFree p a) := inferInstanceAs (Decidable (_ → _ ∨ _))

instance : ∀ act : FenceAct, Decidable (s.Unshared act)
  | .base _ => inferInstanceAs (Decidable (_ → ∀ _ ∈ _, _))
  | .attach p _ => inferInstanceAs (Decidable (s.SlotFree p))
  | .detach p a => inferInstanceAs (Decidable (s.SlotFree p ∧ s.AttFree p a))
  | .wait p | .wake p | .countGot p | .countPut p =>
      inferInstanceAs (Decidable (∀ a ∈ (s.call p).att, s.AttFree p a))
  | .link p =>
      match h : s.call p with
      | .writing a es _ =>
          decidable_of_iff (s.AttFree p a ∧
            (s.cleaned p = true → ∀ e ∈ es, s.owner e = none ∨ s.owner e = some a))
            (by simp only [Unshared, h])
      | .none | .reading _ _ | .waiting _ _ | .got _ _ _ | .written _ _ _ =>
          isTrue (by simp only [Unshared, h])
  | .get _ _ _ | .take _ _ | .put _ _ _ _ => isTrue trivial

/-- **The invariant**: a slot or an attachment that somebody has is marked in its table. -/
structure Inv : Prop where
  slot : ∀ i p, s.mon.owner i = some p → (s.mon.proc i).num = some i
  attach : ∀ a p, s.attOf a = some p → (s.attach a).num = some a

end FenceState

/-! ### The tables -/

namespace MonitorState

variable {n : ℕ} {s t : MonitorState}

/-- A slot that somebody has is marked in the table. -/
def Marked (s : MonitorState) : Prop := ∀ i p, s.owner i = some p → (s.proc i).num = some i

theorem Marked.setPc (h : s.Marked) (p : ℕ) (pc : ProcPc) : (s.setPc p pc).Marked := h

theorem Marked.initProcess (h : s.Marked) (j : ℕ) : (s.initProcess j).Marked := by
  intro i p hi
  rcases eq_or_ne i j with rfl | hij
  · simp [MonitorState.initProcess] at hi
  · simp only [MonitorState.initProcess, Function.update_of_ne hij] at hi ⊢
    exact h i p hi

theorem Marked.setStatus (h : s.Marked) (p : ℕ) (status : ProcStatus) :
    (s.setStatus p status).Marked := by
  intro i q hi
  rcases eq_or_ne i (s.process p).me with rfl | hij
  · simpa [MonitorState.setStatus] using h _ q hi
  · simpa [MonitorState.setStatus, hij] using h i q hi

theorem Marked.refresh (h : s.Marked) (p : ℕ) : (s.refresh p).Marked := by
  unfold MonitorState.refresh
  dsimp only
  split <;> exact h

theorem Marked.heartbeat (h : s.Marked) (p : ℕ) : (s.heartbeat p).Marked := by
  intro i q hi
  rcases eq_or_ne i (s.process p).me with rfl | hij
  · simpa [MonitorState.heartbeat] using h _ q hi
  · simpa [MonitorState.heartbeat, hij] using h i q hi

theorem Marked.reserve (h : s.Marked) {p time : ℕ} (ht : s.reserve n p time = some t) :
    t.Marked := by
  rw [MonitorState.reserve, Option.map_eq_some_iff] at ht
  obtain ⟨j, -, rfl⟩ := ht
  intro i q hi
  rcases eq_or_ne i j with rfl | hij
  · simp
  · simp only [Function.update_of_ne hij] at hi ⊢
    exact h i q hi

theorem Marked.checkSlot (h : s.Marked) (j : ℕ) : (s.checkSlot j).Marked := by
  unfold MonitorState.checkSlot
  split
  · exact h
  · split
    · exact h
    · split
      · exact h
      · exact h.initProcess j

/-- One step of the monitor or of a process that opens or closes the system. -/
theorem Marked.step (h : s.Marked) {a : MonitorAct} (hstep : s.step n a = some t) :
    t.Marked := by
  cases a <;> simp only [MonitorState.step, Option.ite_none_right_eq_some] at hstep
  case reserve p time => exact h.reserve hstep.2
  case openFails p =>
    split at hstep
    · exact Option.some.inj hstep ▸ (h.initProcess _).setPc _ _
    · rw [Option.ite_none_right_eq_some] at hstep
      exact Option.some.inj hstep.2 ▸ (h.initProcess _).setPc _ _
  case markOpen p => exact Option.some.inj hstep.2 ▸ ((h.setStatus p _).refresh p).setPc _ _
  case beat p => exact Option.some.inj hstep.2 ▸ (h.heartbeat p).refresh p
  case closeBegin p => exact Option.some.inj hstep.2 ▸ (h.setStatus p _).setPc _ _
  case closeReopen p => exact Option.some.inj hstep.2 ▸ (h.setStatus p _).setPc _ _
  case closeDone p => exact Option.some.inj hstep.2 ▸ (h.initProcess _).setPc _ _
  case check => exact Option.some.inj hstep.2 ▸ h.checkSlot _
  case startHeartbeat p => exact Option.some.inj hstep.2 ▸ h
  case stopFailed p => exact Option.some.inj hstep.2 ▸ h
  case stopHeartbeat p => exact Option.some.inj hstep.2 ▸ h
  case closeRefused p => exact Option.some.inj hstep.2 ▸ h
  case read => exact Option.some.inj hstep.2 ▸ h

/-- **What a step of `p` does to the slots**: it changes none but the one `p` works on, which
is free before if `p` opens the system. -/
theorem step_proc {a : MonitorAct} {p i : ℕ} (ha : a.actor = some p) (hstep : s.step n a = some t)
    (hi : a.changesSlot = true → i ≠ (s.process p).me) (hfree : (s.proc i).num ≠ none) : t.proc i = s.proc i := by
  have hrefresh : ∀ (r : MonitorState) q, (r.refresh q).proc = r.proc := by
    intro r q
    unfold MonitorState.refresh
    dsimp only
    split <;> rfl
  cases a <;> simp only [MonitorState.step, Option.ite_none_right_eq_some] at hstep <;>
    cases ha
  case reserve time =>
    obtain ⟨-, hr⟩ := hstep
    rw [MonitorState.reserve, Option.map_eq_some_iff] at hr
    obtain ⟨j, hj, rfl⟩ := hr
    have hfirst : (s.proc j).num = none := by
      simpa using List.find?_some hj
    have hij : i ≠ j := by
      rintro rfl
      exact hfree hfirst
    exact Function.update_of_ne hij _ _
  case openFails =>
    split at hstep
    · exact Option.some.inj hstep ▸ Function.update_of_ne (hi rfl) _ _
    · rw [Option.ite_none_right_eq_some] at hstep
      exact Option.some.inj hstep.2 ▸ Function.update_of_ne (hi rfl) _ _
  case markOpen =>
    rw [← Option.some.inj hstep.2]
    show (((s.setStatus p .opened).refresh p).proc) i = s.proc i
    rw [hrefresh]
    exact Function.update_of_ne (hi rfl) _ _
  case beat =>
    rw [← Option.some.inj hstep.2, hrefresh]
    exact Function.update_of_ne (hi rfl) _ _
  case closeBegin => exact Option.some.inj hstep.2 ▸ Function.update_of_ne (hi rfl) _ _
  case closeReopen => exact Option.some.inj hstep.2 ▸ Function.update_of_ne (hi rfl) _ _
  case closeDone => exact Option.some.inj hstep.2 ▸ Function.update_of_ne (hi rfl) _ _
  case startHeartbeat => exact Option.some.inj hstep.2 ▸ rfl
  case stopFailed => exact Option.some.inj hstep.2 ▸ rfl
  case stopHeartbeat => exact Option.some.inj hstep.2 ▸ rfl
  case closeRefused => exact Option.some.inj hstep.2 ▸ rfl

end MonitorState

namespace FenceState

variable {c : TableSizes} {s t : FenceState}

/-! ### The attachments -/

/-- An attachment that somebody has is marked in the table. -/
def Marked (s : FenceState) : Prop := ∀ a p, s.attOf a = some p → (s.attach a).num = some a

theorem Marked.congr (h : s.Marked) (hof : t.attOf = s.attOf)
    (hnum : ∀ a, (t.attach a).num = (s.attach a).num) : t.Marked := by
  intro a p ha
  rw [hnum]
  exact h a p (hof ▸ ha)

theorem Marked.detachFrom (h : s.Marked) (a st : ℕ) : (s.detachFrom a st).Marked := by
  intro b p hb
  rcases eq_or_ne b a with rfl | hba
  · simp [FenceState.detachFrom] at hb
  · simp only [FenceState.detachFrom, Function.update_of_ne hba] at hb ⊢
    exact h b p hb

theorem Marked.cleanupDetach (h : s.Marked) (a : ℕ) : (s.cleanupDetach a).Marked := by
  unfold FenceState.cleanupDetach
  split
  · exact h.detachFrom a _
  · exact h

theorem Marked.fixAttachment (h : s.Marked) (a : ℕ) : (s.fixAttachment c a).Marked := by
  unfold FenceState.fixAttachment
  split
  · intro b p hb
    rcases eq_or_ne b a with rfl | hba
    · simp at hb
    · simp only [Function.update_of_ne hba] at hb ⊢
      exact h b p hb
  · exact h

/-- A loop over the attachments, each round of which keeps a property. -/
theorem foldl_keeps {P : FenceState → Prop} {f : FenceState → ℕ → FenceState} (as : List ℕ)
    (h : P s) (hf : ∀ s a, P s → P (f s a)) : P (as.foldl f s) := by
  induction as generalizing s with
  | nil => exact h
  | cons a as ih => exact ih (hf s a h)

theorem Marked.cleanUp (h : s.Marked) (i : ℕ) : (s.cleanUp c i).Marked := by
  have hmark : (s.markCleaned i).Marked := by
    unfold FenceState.markCleaned
    split <;> exact h
  have hfix : ((s.markCleaned i).fixAttachments c).Marked :=
    foldl_keeps _ hmark fun _ a h => h.fixAttachment a
  have hdetach : (((s.markCleaned i).fixAttachments c).detachAll c i).Marked := by
    refine foldl_keeps _ hfix fun s a h => ?_
    split
    · exact h.cleanupDetach a
    · exact h
  exact hdetach

/-- Only the clean-up and the calls of a process change the monitor's tables beside the
monitor. -/
theorem checkStep_mon (c : TableSizes) (s : FenceState) :
    (s.checkStep c).mon = { s.mon.checkSlot s.mon.look with look := s.mon.look + 1 } := rfl

theorem Marked.checkStep (h : s.Marked) : (s.checkStep c).Marked := by
  have hclean : (if (s.mon.proc s.mon.look).status = .opened ∧ s.mon.Stale s.mon.look then
      s.cleanUp c s.mon.look else s).Marked := by
    split
    · exact h.cleanUp _
    · exact h
  exact hclean

theorem Marked.attachTo (h : s.Marked) {p st : ℕ} (hstep : s.attachTo c p st = some t) :
    t.Marked := by
  simp only [FenceState.attachTo, Option.ite_none_left_eq_some, Option.map_eq_some_iff] at hstep
  obtain ⟨-, -, -, a, -, rfl⟩ := hstep
  intro b q hb
  rcases eq_or_ne b a with rfl | hba
  · simp
  · simp only [Function.update_of_ne hba] at hb ⊢
    exact h b q hb

theorem Marked.detachBy (h : s.Marked) {p a : ℕ} (hstep : s.detachBy p a = some t) :
    t.Marked := by
  rw [FenceState.detachBy, Option.map_eq_some_iff] at hstep
  obtain ⟨st, -, rfl⟩ := hstep
  exact h.detachFrom a st

/-! ### One step -/

theorem step_eq_callStep {act : FenceAct} (h : act.isCall = true) :
    s.step c act = s.callStep act := by
  cases act with
  | base | attach | detach => cases h
  | _ => rfl

/-- **What a step of an event call does**: it touches no slot and no attachment's process, only
the attachment it works for, and only its `blocked` flag and its counters. -/
theorem callStep_frame {act : FenceAct} {p : ℕ} (hp : act.actor = some p)
    (hstep : s.callStep act = some t) :
    t.mon = s.mon ∧ t.atts = s.atts ∧ t.attOf = s.attOf ∧
      (∀ a, (t.attach a).num = (s.attach a).num) ∧
      ∀ a, (act.changesAttach = true → (s.call p).att ≠ some a) →
        t.attach a = s.attach a := by
  have hset : ∀ (a : ℕ) (e : AttachEntry) (call : EventCall), (s.call p).att = some a →
      e.num = (s.attach a).num →
      (∀ b, (((s.setAttach a e).setCall p call).attach b).num = (s.attach b).num) ∧
      ∀ b, (s.call p).att ≠ some b → ((s.setAttach a e).setCall p call).attach b = s.attach b := by
    intro a e call hcall he
    refine ⟨fun b => ?_, fun b hb => ?_⟩
    · rcases eq_or_ne b a with rfl | hba
      · simpa [setAttach, setCall] using he
      · simp [setAttach, setCall, hba]
    · have hba : b ≠ a := by
        rintro rfl
        exact hb hcall
      simp [setAttach, setCall, hba]
  cases act with
  | base | attach | detach => exact absurd hstep nofun
  | get q a fresh =>
      simp only [FenceState.callStep, Option.ite_none_right_eq_some, Option.some.injEq] at hstep
      obtain ⟨-, rfl⟩ := hstep
      exact ⟨rfl, rfl, rfl, fun _ => rfl, fun _ _ => rfl⟩
  | put q a es dump =>
      simp only [FenceState.callStep, Option.ite_none_right_eq_some, Option.some.injEq] at hstep
      obtain ⟨-, rfl⟩ := hstep
      exact ⟨rfl, rfl, rfl, fun _ => rfl, fun _ _ => rfl⟩
  | take q es =>
      simp only [FenceState.callStep] at hstep
      split at hstep
      · rw [Option.ite_none_right_eq_some, Option.some.injEq] at hstep
        obtain ⟨-, rfl⟩ := hstep
        exact ⟨rfl, rfl, rfl, fun _ => rfl, fun _ _ => rfl⟩
      · cases hstep
  | link q =>
      simp only [FenceState.callStep] at hstep
      split at hstep
      · cases hstep
        exact ⟨rfl, rfl, rfl, fun _ => rfl, fun _ _ => rfl⟩
      · cases hstep
  | wait q =>
      obtain rfl := Option.some.inj hp
      simp only [FenceState.callStep] at hstep
      split at hstep
      · rename_i a fresh hcall
        cases hstep
        obtain ⟨hnum, hrest⟩ := hset a { s.attach a with blocked := true } (.waiting a fresh)
          (by rw [hcall]; rfl) rfl
        exact ⟨rfl, rfl, rfl, hnum, fun b hb => hrest b (hb rfl)⟩
      · cases hstep
  | wake q =>
      obtain rfl := Option.some.inj hp
      simp only [FenceState.callStep] at hstep
      split at hstep
      · rename_i a fresh hcall
        cases hstep
        obtain ⟨hnum, hrest⟩ := hset a { s.attach a with blocked := false } (.reading a fresh)
          (by rw [hcall]; rfl) rfl
        exact ⟨rfl, rfl, rfl, hnum, fun b hb => hrest b (hb rfl)⟩
      · cases hstep
  | countGot q =>
      obtain rfl := Option.some.inj hp
      simp only [FenceState.callStep] at hstep
      split at hstep
      · rename_i a num fresh hcall
        cases hstep
        obtain ⟨hnum, hrest⟩ := hset a
          (if fresh then { s.attach a with eventsMake := (s.attach a).eventsMake + num }
            else { s.attach a with eventsGet := (s.attach a).eventsGet + num }) .none
          (by rw [hcall]; rfl) (by split <;> rfl)
        exact ⟨rfl, rfl, rfl, hnum, fun b hb => hrest b (hb rfl)⟩
      · cases hstep
  | countPut q =>
      obtain rfl := Option.some.inj hp
      simp only [FenceState.callStep] at hstep
      split at hstep
      · rename_i a num dump hcall
        cases hstep
        obtain ⟨hnum, hrest⟩ := hset a
          (if dump then { s.attach a with eventsDump := (s.attach a).eventsDump + num }
            else { s.attach a with eventsPut := (s.attach a).eventsPut + num }) .none
          (by rw [hcall]; rfl) (by split <;> rfl)
        exact ⟨rfl, rfl, rfl, hnum, fun b hb => hrest b (hb rfl)⟩
      · cases hstep

/-- What a step of `et_open` and `et_close` does beside the monitor's tables. -/
theorem baseStep_frame {a : MonitorAct} {p : ℕ} (ha : a.actor = some p)
    (hstep : s.baseStep c a = some t) :
    s.mon.step c.nprocesses a = some t.mon ∧ t.attach = s.attach ∧ t.attOf = s.attOf ∧
      t.owner = s.owner ∧ ∀ i, (a.changesSlot = true → i ≠ s.me p) → t.atts i = s.atts i := by
  rw [FenceState.baseStep, Option.bind_eq_some_iff] at hstep
  obtain ⟨mon, hmon, hstep⟩ := hstep
  rw [hmon]
  cases a with
  | read | check => cases ha
  | reserve | startHeartbeat | stopFailed | markOpen | beat | stopHeartbeat | closeReopen =>
      cases hstep
      exact ⟨rfl, rfl, rfl, rfl, fun _ _ => rfl⟩
  | openFails q =>
      obtain rfl := Option.some.inj ha
      cases hstep
      exact ⟨rfl, rfl, rfl, rfl, fun i hi => Function.update_of_ne (hi rfl) _ _⟩
  | closeBegin q =>
      simp only [Option.ite_none_right_eq_some, Option.some.injEq] at hstep
      obtain ⟨-, rfl⟩ := hstep
      exact ⟨rfl, rfl, rfl, rfl, fun _ _ => rfl⟩
  | closeRefused q =>
      simp only [Option.ite_none_right_eq_some, Option.some.injEq] at hstep
      obtain ⟨-, rfl⟩ := hstep
      exact ⟨rfl, rfl, rfl, rfl, fun _ _ => rfl⟩
  | closeDone q =>
      obtain rfl := Option.some.inj ha
      cases hstep
      exact ⟨rfl, rfl, rfl, rfl, fun i hi => Function.update_of_ne (hi rfl) _ _⟩

theorem Marked.baseStep (h : s.Marked) {a : MonitorAct} (hstep : s.baseStep c a = some t) :
    t.Marked := by
  cases ha : a.actor with
  | some p =>
      obtain ⟨-, hattach, hof, -⟩ := baseStep_frame ha hstep
      exact h.congr hof fun a => by rw [hattach]
  | none =>
      rw [FenceState.baseStep, Option.bind_eq_some_iff] at hstep
      obtain ⟨mon, -, hstep⟩ := hstep
      cases a with
      | read =>
          cases hstep
          exact h
      | check =>
          cases hstep
          exact h.checkStep
      | _ => cases ha

theorem baseStep_mon {a : MonitorAct} (hstep : s.baseStep c a = some t) :
    s.mon.step c.nprocesses a = some t.mon := by
  cases ha : a.actor with
  | some p => exact (baseStep_frame ha hstep).1
  | none =>
      rw [FenceState.baseStep, Option.bind_eq_some_iff] at hstep
      obtain ⟨mon, hmon, hstep⟩ := hstep
      cases a with
      | read =>
          cases hstep
          exact hmon
      | check =>
          cases hstep
          rw [MonitorState.step, Option.ite_none_right_eq_some] at hmon ⊢
          exact ⟨hmon.1, congrArg some (checkStep_mon c s).symm⟩
      | _ => cases ha

/-- **One step** keeps the tables marked. -/
theorem Inv.step (h : s.Inv) {act : FenceAct} (hstep : s.step c act = some t) : t.Inv := by
  cases act with
  | base a =>
      refine ⟨MonitorState.Marked.step h.slot (baseStep_mon hstep), ?_⟩
      exact Marked.baseStep h.attach hstep
  | attach p st =>
      simp only [FenceState.step, Option.ite_none_right_eq_some] at hstep
      obtain ⟨-, hstep⟩ := hstep
      refine ⟨?_, Marked.attachTo h.attach hstep⟩
      simp only [FenceState.attachTo, Option.ite_none_left_eq_some, Option.map_eq_some_iff] at hstep
      obtain ⟨-, -, -, a, -, rfl⟩ := hstep
      exact h.slot
  | detach p a =>
      simp only [FenceState.step, Option.ite_none_right_eq_some] at hstep
      obtain ⟨-, hstep⟩ := hstep
      refine ⟨?_, Marked.detachBy h.attach hstep⟩
      rw [FenceState.detachBy, Option.map_eq_some_iff] at hstep
      obtain ⟨st, -, rfl⟩ := hstep
      exact h.slot
  | get | wait | wake | take | countGot | put | link | countPut =>
      rw [step_eq_callStep (by rfl)] at hstep
      obtain ⟨hmon, -, hof, hnum, -⟩ := callStep_frame rfl hstep
      refine ⟨?_, Marked.congr h.attach hof hnum⟩
      rw [hmon]
      exact h.slot

/-! ### A late step -/

/-- A process that was cleaned up works on a slot nobody else has. -/
theorem Inv.ne_me (h : s.Inv) {p i q : ℕ} (hfree : s.SlotFree p) (hc : s.cleaned p = true)
    (hi : s.mon.owner i = some q) : i ≠ s.me p := by
  rintro rfl
  have := h.slot _ q hi
  rw [hfree hc] at this
  cases this

/-- And for an attachment nobody else has. -/
theorem Inv.ne_att (h : s.Inv) {p a b q : ℕ} (hfree : s.AttFree p a) (hc : s.cleaned p = true)
    (hb : s.attOf b = some q) (hq : q ≠ p) : b ≠ a := by
  rintro rfl
  rcases hfree hc with hnum | hof
  · rw [h.attach b q hb] at hnum
    cases hnum
  · rw [hb] at hof
    exact hq (Option.some.inj hof)

theorem Inv.spares_base (h : s.Inv) {a : MonitorAct} {p : ℕ} (ok : s.Unshared (.base a))
    (hstep : s.baseStep c a = some t) (ha : a.actor = some p) (hc : s.cleaned p = true) :
    Spares s t p := by
  obtain ⟨hmon, hattach, -, howner, hatts⟩ := baseStep_frame ha hstep
  have hne : ∀ i q, s.mon.owner i = some q → a.changesSlot = true → i ≠ s.me p :=
    fun i q hi hch => h.ne_me (ok hch p ha) hc hi
  refine ⟨fun i q hi _ => ⟨?_, hatts i (hne i q hi)⟩, fun b _ _ _ => by rw [hattach],
    fun e b _ he _ _ => by rw [howner, he]⟩
  refine MonitorState.step_proc ha hmon (hne i q hi) ?_
  rw [h.slot i q hi]
  exact nofun

theorem Inv.spares_attach (h : s.Inv) {p st : ℕ} (ok : s.SlotFree p)
    (hstep : s.attachTo c p st = some t) (hc : s.cleaned p = true) : Spares s t p := by
  simp only [FenceState.attachTo, Option.ite_none_left_eq_some, Option.map_eq_some_iff] at hstep
  obtain ⟨-, -, -, a, ha, rfl⟩ := hstep
  have hfirst : (s.attach a).num = none := by simpa using List.find?_some ha
  refine ⟨fun i q hi _ => ⟨rfl, Function.update_of_ne (h.ne_me ok hc hi) _ _⟩,
    fun b q hb _ => ?_, fun _ _ _ he _ _ => he⟩
  have hba : b ≠ a := by
    rintro rfl
    rw [h.attach b q hb] at hfirst
    cases hfirst
  exact Function.update_of_ne hba _ _

theorem Inv.spares_detach (h : s.Inv) {p a : ℕ} (ok : s.SlotFree p ∧ s.AttFree p a)
    (hstep : s.detachBy p a = some t) (hc : s.cleaned p = true) : Spares s t p := by
  rw [FenceState.detachBy, Option.map_eq_some_iff] at hstep
  obtain ⟨st, -, rfl⟩ := hstep
  refine ⟨fun i q hi _ => ⟨rfl, Function.update_of_ne (h.ne_me ok.1 hc hi) _ _⟩,
    fun b q hb hq => Function.update_of_ne (h.ne_att ok.2 hc hb hq) _ _, fun e b q he hb hq => ?_⟩
  have hba := h.ne_att ok.2 hc hb hq
  show (if s.owner e = some a then none else s.owner e) = some b
  rw [he, if_neg fun hs => hba (Option.some.inj hs)]

/-- An event call takes no event of others, and gives none of theirs back. -/
theorem Inv.spares_call (h : s.Inv) {act : FenceAct} {p : ℕ} (ok : s.Unshared act)
    (hstep : s.callStep act = some t) (hp : act.actor = some p) (hc : s.cleaned p = true) :
    Spares s t p := by
  obtain ⟨hmon, hatts, -, -, hattach⟩ := callStep_frame hp hstep
  refine ⟨fun i q _ _ => ⟨by rw [hmon], by rw [hatts]⟩, fun b q hb hq => hattach b fun hch hcall => ?_,
    fun e b q he hb hq => ?_⟩
  · cases act with
    | wait r | wake r | countGot r | countPut r =>
        obtain rfl := Option.some.inj hp
        exact h.ne_att (ok b hcall) hc hb hq rfl
    | _ => cases hch
  · cases act with
    | base | attach | detach => exact absurd hstep nofun
    | get r a fresh =>
        simp only [FenceState.callStep, Option.ite_none_right_eq_some, Option.some.injEq] at hstep
        obtain ⟨-, rfl⟩ := hstep
        exact he
    | put r a es dump =>
        simp only [FenceState.callStep, Option.ite_none_right_eq_some, Option.some.injEq] at hstep
        obtain ⟨-, rfl⟩ := hstep
        exact he
    | wait r | wake r | countGot r | countPut r =>
        simp only [FenceState.callStep] at hstep
        split at hstep
        · cases hstep
          exact he
        · cases hstep
    | take r es =>
        simp only [FenceState.callStep] at hstep
        split at hstep
        · rw [Option.ite_none_right_eq_some, Option.some.injEq] at hstep
          obtain ⟨hes, rfl⟩ := hstep
          have hnot : e ∉ es := by
            intro hmem
            rw [hes e hmem] at he
            cases he
          exact (if_neg hnot).trans he
        · cases hstep
    | link r =>
        obtain rfl := Option.some.inj hp
        simp only [FenceState.callStep] at hstep
        split at hstep
        · rename_i a es dump hcall
          cases hstep
          simp only [FenceState.Unshared, hcall] at ok
          have hnot : e ∉ es := by
            intro hmem
            rcases ok.2 hc e hmem with hnone | hown
            · rw [he] at hnone
              cases hnone
            · rw [he] at hown
              exact h.ne_att ok.1 hc hb hq (Option.some.inj hown)
          exact (if_neg hnot).trans he
        · cases hstep

theorem Inv.spares (h : s.Inv) {act : FenceAct} {p : ℕ} (ok : s.Unshared act)
    (hstep : s.step c act = some t) (hp : act.actor = some p) (hc : s.cleaned p = true) :
    Spares s t p := by
  cases act with
  | base a => exact h.spares_base ok hstep hp hc
  | attach q st =>
      obtain rfl := Option.some.inj hp
      simp only [FenceState.step, Option.ite_none_right_eq_some] at hstep
      exact h.spares_attach ok hstep.2 hc
  | detach q a =>
      obtain rfl := Option.some.inj hp
      simp only [FenceState.step, Option.ite_none_right_eq_some] at hstep
      exact h.spares_detach ok hstep.2 hc
  | get | wait | wake | take | countGot | put | link | countPut =>
      rw [step_eq_callStep (by rfl)] at hstep
      exact h.spares_call ok hstep hp hc

theorem Start.inv (h : s.Start) : s.Inv := by
  obtain ⟨⟨n, stackBeat, stackTime, hmon⟩, -, -, -, -, -, -, hof, -⟩ := h
  refine ⟨fun i p hi => ?_, fun a p ha => ?_⟩
  · rw [hmon] at hi
    cases hi
  · rw [hof] at ha
    cases ha

end FenceState

/-- **A process that was cleaned up is fenced off** in every run in which no such process works
through a number somebody else has. -/
theorem cleaned_up_is_fenced {c : TableSizes} {s t : FenceState} {act : FenceAct} {p : ℕ}
    (run : (fencing c).Reach FenceState.Unshared s) (ok : s.Unshared act)
    (hstep : s.step c act = some t) (hp : act.actor = some p) (hc : s.cleaned p = true) :
    Spares s t p := by
  have hinv : s.Inv :=
    run.invariant (fun _ hs => hs.1.inv) fun _ _ _ h _ hstep => h.step hstep
  exact hinv.spares ok hstep hp hc

/-- A system in which GRAND_CENTRAL is the only station. -/
def emptySystem (nprocesses : ℕ) : FenceState where
  mon := .initial nprocesses (fun _ => 0) fun _ => 0
  atts _ := .init
  attach _ := .init
  stat _ := ⟨.active, 0, 0, fun _ => false⟩
  nattachments := 0
  owner _ := none
  call _ := .none
  attOf _ := none
  cleaned _ := false

theorem reach_emptySystem (c : TableSizes) (P : FenceState → FenceAct → Prop) :
    (fencing c).Reach P (emptySystem c.nprocesses) := by
  refine .start ⟨⟨⟨_, _, _, rfl⟩, rfl, rfl, fun _ => ⟨rfl, rfl⟩, rfl, rfl, rfl, rfl, rfl⟩, rfl⟩

/-- Process `p` opens the system. -/
def openSteps (p time : ℕ) : List FenceAct :=
  [.base (.reserve p time), .base (.startHeartbeat p), .base (.beat p), .base (.markOpen p)]

/-- Of two processes the first has stalled, and is cleaned up; its slot is still free when it
beats again. -/
theorem cleaned_up_is_fenced_example :
    ∃ s t, (fencing ⟨2, 2, 1⟩).Reach FenceState.Unshared s ∧
      s.step ⟨2, 2, 1⟩ (.base (.beat 0)) = some t ∧ s.cleaned 0 = true ∧
      s.mon.owner 1 = some 1 ∧ Spares s t 0 := by
  have hrun : ((Machine.runActs (FenceState.step ⟨2, 2, 1⟩) FenceState.Unshared
      (openSteps 0 5 ++ openSteps 1 6 ++ [.base .read, .base .check, .base .check,
        .base (.beat 1), .base .read, .base .check]) (emptySystem 2)).map fun s =>
        (s.cleaned 0, s.mon.owner 1, decide (s.Unshared (.base (.beat 0))),
          (s.step ⟨2, 2, 1⟩ (.base (.beat 0))).isSome)) = some (true, some 1, true, true) := by
    decide
  obtain ⟨s, hs, hval⟩ := Option.map_eq_some_iff.mp hrun
  simp only [Prod.mk.injEq, decide_eq_true_eq] at hval
  obtain ⟨hc, howner, hok, hstep⟩ := hval
  obtain ⟨t, ht⟩ := Option.isSome_iff_exists.mp hstep
  have run := Machine.reach_of_runActs (reach_emptySystem ⟨2, 2, 1⟩ FenceState.Unshared) hs
  exact ⟨s, t, run, ht, hc, howner, cleaned_up_is_fenced run hok ht rfl hc⟩

/-- **A late heartbeat.**  Process 0 has stalled and is cleaned up, process 1 is given its
slot, and the heartbeat thread of process 0 goes on: it increments the heartbeat of
process 1. -/
theorem late_heartbeat_hits_successor :
    ∃ s t, (fencing ⟨1, 1, 1⟩).Reach (fun _ _ => True) s ∧
      s.step ⟨1, 1, 1⟩ (.base (.beat 0)) = some t ∧ s.cleaned 0 = true ∧
      s.mon.owner 0 = some 1 ∧ ¬ Spares s t 0 := by
  have hrun : ((Machine.runActs (FenceState.step ⟨1, 1, 1⟩) (fun _ _ => True)
      (openSteps 0 5 ++ [.base .read, .base .check, .base .read, .base .check] ++
        openSteps 1 6) (emptySystem 1)).map fun s =>
        (s.cleaned 0, s.mon.owner 0, (s.mon.proc 0).heartbeat,
          (s.step ⟨1, 1, 1⟩ (.base (.beat 0))).map fun t => (t.mon.proc 0).heartbeat)) =
      some (true, some 1, 1, some 2) := by decide
  obtain ⟨s, hs, hval⟩ := Option.map_eq_some_iff.mp hrun
  simp only [Prod.mk.injEq] at hval
  obtain ⟨hc, howner, hbeat, hlate⟩ := hval
  obtain ⟨t, ht, htbeat⟩ := Option.map_eq_some_iff.mp hlate
  refine ⟨s, t, Machine.reach_of_runActs (reach_emptySystem ⟨1, 1, 1⟩ _) hs, ht, hc, howner, ?_⟩
  intro hspares
  have hproc := (hspares.slot 0 1 howner nofun).1
  rw [hproc, hbeat] at htbeat
  exact absurd htbeat (by decide)

end EventTransfer
