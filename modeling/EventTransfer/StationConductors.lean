import EventTransfer.Lib.StepRun
import EventTransfer.Lib.Tally

/-!
# Creating and removing stations while conductors run

`et_station_create_at` takes the first unused slot, initialises it with `et_init_station`, and
has a conductor thread started for it; if the station then cannot be inserted into the linked
list, the thread is to end again, by the same means as in `et_station_remove`: the field
`conductor` of the station is set to `ET_THREAD_KILL` and the condition variable of its output
list is signalled.  Neither is done under the list's mutex.  `et_conductor` tests the mark only
when it comes back from a wait on that condition variable, before it looks whether there are
events.

Both calls run under the station lock, so that there is one at a time.  `et_station_remove`
holds the transfer locks of all stations, that of its own station excepted while it gives the
conductor time to work; how long this takes has no bearing on what the conductor has done by
then.  A conductor needs its own station's transfer lock to pass events on.

One stay in a list's mutex is one step, as is what a conductor does under the transfer lock:
there the linked list cannot change, and a conductor that is passing events on has done so
before a call has all the transfer locks.  To which of the stations that are ACTIVE it passes
an event, and the order in the lists, is left open.

* `ConductorState.Faithful` — every station has one conductor, the conductors of stations that
  are gone have ended or are about to, and each event is in one place.
* `conductors_faithful` — so it is in runs where conductors are killed only while they wait on
  an empty list, and slots used again only when their conductors have ended.
* `conductors_not_faithful` — it is not so in all runs.
-/

namespace EventTransfer

open StepRun Tally

/-- Status of a station. -/
inductive StationStatus
  | unused
  | creating
  | idle
  | active
  deriving DecidableEq, Repr

/-- **A slot for a station.**  `kill` says that `conductor` is `ET_THREAD_KILL`.  The number of
stations created in the slot so far, `station`, records history and is read by no step. -/
structure StationSlot where
  status : StationStatus
  nattachments : ℕ
  kill : Bool
  listIn : List ℕ
  listOut : List ℕ
  station : ℕ
  deriving DecidableEq, Repr

/-- **Where a conductor is.**  In `loop` it is about to take the list's mutex; in `batch` it has
read the events, and needs the transfer lock. -/
inductive ConductorPc
  | loop
  | waiting (notified : Bool)
  | batch
  | exited
  deriving DecidableEq, Repr

/-- **A conductor thread**: its slot and the events in its hands.

The last two fields record history: for which station of the slot the thread was started, and
from the list of which one it has read last. -/
structure ConductorThread where
  slot : ℕ
  pc : ConductorPc
  events : List ℕ
  station : ℕ
  read : Option ℕ
  deriving DecidableEq, Repr

/-- **The call that has the station lock.**  A station is `created` or `removed`; where a thread
is to be killed, the mark is set, the signal sent, and the slot set free, by a call that has all
transfer locks or none. -/
inductive StationCall
  | none
  | created (i : ℕ)
  | notStarted (i : ℕ)
  | started (i : ℕ)
  | notInserted (i : ℕ)
  | removed (i : ℕ)
  | locked (i : ℕ)
  | marked (i : ℕ) (all : Bool)
  | signalled (i : ℕ) (all : Bool)
  deriving DecidableEq, Repr

/-- The slots, the conductor threads started so far, the call in progress, `sys->nstations`, and
the events that clients have. -/
structure ConductorState where
  slot : ℕ → StationSlot
  thread : ℕ → ConductorThread
  threads : ℕ
  call : StationCall
  nstations : ℕ
  clients : List ℕ

/-- **The steps.**

`create`, `start`, `giveUp` and `insert` are those of `et_station_create_at` up to the insertion
(`start` that of the conductor), `remove` and `relock` those of `et_station_remove`, and `mark`,
`signal` and `free` those of both.  In `signal`, `put` and `detach` it is told which of the
threads that wait on the condition variable is woken.

In `detach` the events left in the input list move to an output list, which is another
station's where the restore mode is `ET_STATION_RESTORE_REDIST`. -/
inductive ConductorAct
  | create
  | start (ok : Bool)
  | giveUp
  | insert (ok : Bool)
  | remove (i : ℕ)
  | relock
  | mark
  | signal (woken : ℕ)
  | free
  | attach (i : ℕ)
  | detach (i list woken : ℕ)
  | get (i : ℕ) (count : ℕ)
  | put (i : ℕ) (events : List ℕ) (woken : ℕ)
  | test (t : ℕ)
  | wake (t : ℕ)
  | conduct (t : ℕ) (places : List ℕ)
  deriving DecidableEq, Repr

namespace StationSlot

variable (r : StationSlot)

/-- **`et_init_station`.** -/
def init : StationSlot :=
  { r with
    status := .unused
    nattachments := 0
    kill := false
    listIn := []
    listOut := [] }

/-- The slot after initialisation for a new station. -/
def create : StationSlot :=
  { r.init with
    status := .creating
    station := r.station + 1 }

def setStatus (status : StationStatus) : StationSlot := { r with status := status }

def setKill : StationSlot := { r with kill := true }

def setIn (events : List ℕ) : StationSlot := { r with listIn := events }

def setOut (events : List ℕ) : StationSlot := { r with listOut := events }

/-- An attachment more. -/
def attach : StationSlot :=
  { r with
    status := .active
    nattachments := r.nattachments + 1 }

/-- An attachment less, which is not the last. -/
def detach : StationSlot := { r with nattachments := r.nattachments - 1 }

/-- The last attachment is gone, and so are the events of the input list. -/
def detachLast : StationSlot :=
  { r with
    status := .idle
    nattachments := 0
    listIn := [] }

/-- There is a station: it is IDLE or ACTIVE. -/
def Exists : Prop := r.status = .idle ∨ r.status = .active

instance : Decidable r.Exists := inferInstanceAs (Decidable (_ ∨ _))

/-- An event in the lists of an existing station. -/
def count (e : ℕ) : ℕ :=
  if r.status = .unused then 0 else r.listIn.count e + r.listOut.count e

end StationSlot

namespace ConductorThread

variable (r : ConductorThread)

def setPc (pc : ConductorPc) : ConductorThread := { r with pc := pc }

/-- The thread has read the events of the list. -/
def takeBatch (events : List ℕ) (station : ℕ) : ConductorThread :=
  { r with
    pc := .batch
    events := events
    read := some station }

/-- The thread has passed on its events. -/
def dropBatch : ConductorThread :=
  { r with
    pc := .loop
    events := [] }

end ConductorThread

namespace StationCall

/-- The call has the transfer lock of station `i`. -/
def HasTransferLock (i : ℕ) : StationCall → Prop
  | .removed j => i ≠ j
  | .locked _ => True
  | .marked _ all | .signalled _ all => all = true
  | .none | .created _ | .notStarted _ | .started _ | .notInserted _ => False

instance (i : ℕ) : (call : StationCall) → Decidable (call.HasTransferLock i)
  | .removed j => inferInstanceAs (Decidable (i ≠ j))
  | .locked _ => isTrue trivial
  | .marked _ all | .signalled _ all => inferInstanceAs (Decidable (all = true))
  | .none | .created _ | .notStarted _ | .started _ | .notInserted _ => isFalse id

end StationCall

namespace ConductorState

variable (n : ℕ) (s : ConductorState)

def setSlot (i : ℕ) (r : StationSlot) : ConductorState :=
  { s with slot := Function.update s.slot i r }

def setThread (t : ℕ) (r : ConductorThread) : ConductorState :=
  { s with thread := Function.update s.thread t r }

def setClients (clients : List ℕ) : ConductorState := { s with clients := clients }

/-- Thread `t` serves slot `i`. -/
def Serves (t i : ℕ) : Prop :=
  t < s.threads ∧ (s.thread t).pc ≠ .exited ∧ (s.thread t).slot = i

instance (t i : ℕ) : Decidable (s.Serves t i) := inferInstanceAs (Decidable (_ ∧ _ ∧ _))

/-- Thread `t` waits on the output list of slot `i`, and has not been notified. -/
def Waits (t i : ℕ) : Prop :=
  t < s.threads ∧ (s.thread t).pc = .waiting false ∧ (s.thread t).slot = i

instance (t i : ℕ) : Decidable (s.Waits t i) := inferInstanceAs (Decidable (_ ∧ _ ∧ _))

/-- `pthread_cond_signal` wakes one of the threads that wait. -/
def notify (i woken : ℕ) : Option ConductorState :=
  if s.Waits woken i then
    some (s.setThread woken ((s.thread woken).setPc (.waiting true)))
  else if ∃ t < s.threads, s.Waits t i then none
  else some s

/-- Events are put into an output list, if there are any. -/
def flush (list woken : ℕ) (events : List ℕ) : Option ConductorState :=
  if events = [] then some s
  else
    (s.setSlot list ((s.slot list).setOut ((s.slot list).listOut ++ events))).notify list woken

/-- The first unused slot. -/
def freeSlot : Option ℕ := (List.range n).find? fun i => (s.slot i).status = .unused

/-- The slot is initialised for the new station. -/
def reserve (i : ℕ) : ConductorState :=
  { s.setSlot i (s.slot i).create with
    call := .created i
    nstations := s.nstations + 1 }

/-- The conductor of a new station has started. -/
def addThread (i : ℕ) : ConductorState :=
  { s.setSlot i ((s.slot i).setStatus .idle) with
    thread := Function.update s.thread s.threads ⟨i, .loop, [], (s.slot i).station, none⟩
    threads := s.threads + 1
    call := .started i }

/-- The conductor has the list's mutex: it waits, or reads all events. -/
def readOrWait (t : ℕ) : ConductorState :=
  let i := (s.thread t).slot
  if (s.slot i).listOut = [] then
    s.setThread t ((s.thread t).setPc (.waiting false))
  else
    (s.setThread t ((s.thread t).takeBatch (s.slot i).listOut (s.slot i).station)).setSlot i
      ((s.slot i).setOut [])

/-- A conductor comes back from its wait. -/
def resume (t : ℕ) : ConductorState :=
  if (s.slot (s.thread t).slot).kill then s.setThread t ((s.thread t).setPc .exited)
  else s.readOrWait t

/-- Events are put into input lists. -/
def deliver : List ℕ → List ℕ → ConductorState → ConductorState
  | e :: events, i :: places, s =>
      deliver events places (s.setSlot i ((s.slot i).setIn ((s.slot i).listIn ++ [e])))
  | _, _, s => s

/-- **The steps**; `none` when a step is not possible. -/
def step (s : ConductorState) : ConductorAct → Option ConductorState
  | .create =>
      if s.call = .none ∧ s.nstations < n then (s.freeSlot n).map s.reserve else none
  | .start ok =>
      match s.call with
      | .created i => some (if ok then s.addThread i else { s with call := .notStarted i })
      | _ => none
  | .giveUp =>
      match s.call with
      | .notStarted i =>
          some { s.setSlot i (s.slot i).init with
            call := .none
            nstations := s.nstations - 1 }
      | _ => none
  | .insert ok =>
      match s.call with
      | .started i => some { s with call := if ok then .none else .notInserted i }
      | _ => none
  | .remove i =>
      if s.call = .none ∧ i ≠ 0 ∧ i < n ∧ (s.slot i).nattachments = 0 then
        some { s with call := .removed i }
      else none
  | .relock =>
      match s.call with
      | .removed i => some { s with call := .locked i }
      | _ => none
  | .mark =>
      match s.call with
      | .notInserted i =>
          some { s.setSlot i (s.slot i).setKill with call := .marked i false }
      | .locked i =>
          some { s.setSlot i (s.slot i).setKill with call := .marked i true }
      | _ => none
  | .signal woken =>
      match s.call with
      | .marked i all => (s.notify i woken).map fun s => { s with call := .signalled i all }
      | _ => none
  | .free =>
      match s.call with
      | .signalled i _ =>
          some { s.setSlot i ((s.slot i).setStatus .unused) with
            call := .none
            nstations := s.nstations - 1 }
      | _ => none
  | .attach i =>
      if s.call = .none ∧ i < n ∧ (s.slot i).Exists then
        some (s.setSlot i (s.slot i).attach)
      else none
  | .detach i list woken =>
      if s.call = .none ∧ i < n ∧ (s.slot i).status = .active ∧ (s.slot i).nattachments ≠ 0 ∧
          list < n ∧ (s.slot list).Exists then
        if (s.slot i).nattachments = 1 ∧ i ≠ 0 then
          (s.setSlot i (s.slot i).detachLast).flush list woken (s.slot i).listIn
        else some (s.setSlot i (s.slot i).detach)
      else none
  | .get i count =>
      if i < n ∧ (s.slot i).status = .active ∧ (i = 0 ∨ (s.slot i).nattachments ≠ 0) then
        some ((s.setSlot i ((s.slot i).setIn ((s.slot i).listIn.drop count))).setClients
          (s.clients ++ (s.slot i).listIn.take count))
      else none
  | .put i events woken =>
      if i < n ∧ (s.slot i).status = .active ∧ (s.slot i).nattachments ≠ 0 ∧
          events.Subperm s.clients then
        ((s.setSlot i ((s.slot i).setOut ((s.slot i).listOut ++ events))).setClients
          (s.clients.diff events)).notify i woken
      else none
  | .test t =>
      if t < s.threads ∧ (s.thread t).pc = .loop then some (s.readOrWait t) else none
  -- a wait may end without a signal
  | .wake t =>
      if t < s.threads ∧ ((s.thread t).pc = .waiting true ∨ (s.thread t).pc = .waiting false) then
        some (s.resume t)
      else none
  | .conduct t places =>
      if t < s.threads ∧ (s.thread t).pc = .batch ∧
          ¬ s.call.HasTransferLock (s.thread t).slot ∧
          places.length = (s.thread t).events.length ∧
          ∀ i ∈ places, i < n ∧ (s.slot i).status = .active then
        some ((deliver (s.thread t).events places s).setThread t (s.thread t).dropBatch)
      else none

/-- The station that thread `t` was started for is gone. -/
def Gone (t : ℕ) : Prop :=
  (s.thread t).station ≠ (s.slot (s.thread t).slot).station ∨
    (s.slot (s.thread t).slot).status = .unused

/-- **In how many places event `e` is**: with clients, in the lists of existing stations, in
the hands of conductors. -/
def count (e : ℕ) : ℕ :=
  s.clients.count e + ∑ i ∈ Finset.range n, (s.slot i).count e +
    ∑ t ∈ Finset.range s.threads, (s.thread t).events.count e

/-- **One conductor per station, and no event lost.**  A station that exists is served by one
thread.  The thread of a station that is gone has ended, or has been woken and will find the
mark; what it has read is from the list of its own station.  Each event is in one place. -/
structure Faithful (nevents : ℕ) : Prop where
  served : ∀ i < n, (s.slot i).Exists → ∃! t, s.Serves t i
  gone : ∀ t < s.threads, s.Gone t →
    (s.thread t).pc = .exited ∨
      (s.thread t).pc = .waiting true ∧ (s.slot (s.thread t).slot).kill = true
  ownList : ∀ t < s.threads, ∀ k, (s.thread t).read = some k → k = (s.thread t).station
  kept : ∀ e < nevents, s.count n e = 1

/-- The call in progress kills a conductor that waits, with nothing in its output list. -/
def KillsWaiting : StationCall → Prop
  | .notInserted i | .locked i =>
      (s.slot i).listOut = [] ∧
        ∀ t < s.threads, s.Serves t i →
          (s.thread t).pc = .waiting true ∨ (s.thread t).pc = .waiting false
  | _ => True

instance : (call : StationCall) → Decidable (s.KillsWaiting call)
  | .notInserted i | .locked i => inferInstanceAs (Decidable ((s.slot i).listOut = [] ∧
      ∀ t < s.threads, s.Serves t i →
        (s.thread t).pc = .waiting true ∨ (s.thread t).pc = .waiting false))
  | .none | .created _ | .notStarted _ | .started _ | .removed _ | .marked .. | .signalled .. =>
      isTrue trivial

/-- No thread serves a slot that is about to be used again. -/
def FreeSlotUnserved : Prop := ∀ i ∈ s.freeSlot n, ∀ t < s.threads, ¬ s.Serves t i

instance : Decidable (s.FreeSlotUnserved n) := by
  unfold FreeSlotUnserved
  infer_instance

/-- **Orderly steps.**  Stations are removed that exist; a conductor is killed while it waits and
its output list is empty, and ends after its slot has been set free; and a slot is used again
after its conductor has ended. -/
def Orderly (s : ConductorState) : ConductorAct → Prop
  | .create => s.FreeSlotUnserved n
  | .remove i => (s.slot i).Exists
  | .mark => s.KillsWaiting s.call
  | .wake t =>
      (s.slot (s.thread t).slot).kill = true → (s.slot (s.thread t).slot).status = .unused
  | _ => True

instance : (a : ConductorAct) → Decidable (s.Orderly n a)
  | .create => inferInstanceAs (Decidable (s.FreeSlotUnserved n))
  | .remove i => inferInstanceAs (Decidable (s.slot i).Exists)
  | .mark => inferInstanceAs (Decidable (s.KillsWaiting s.call))
  | .wake t => inferInstanceAs (Decidable ((s.slot (s.thread t).slot).kill = true →
      (s.slot (s.thread t).slot).status = .unused))
  | .start _ | .giveUp | .insert _ | .relock | .signal _ | .free | .attach _ | .detach .. | .get ..
  | .put .. | .test _ | .conduct .. => isTrue trivial

end ConductorState

/-- **The system after `et_system_start`**: GRAND_CENTRAL, with all events in its input list and
with its conductor. -/
def conductors (n nevents : ℕ) : Machine ConductorState ConductorAct :=
  .ofStep (fun s =>
      (s.slot 0 = ⟨.active, 0, false, List.range nevents, [], 1⟩ ∧ 0 < n ∧
        ∀ i, i ≠ 0 → s.slot i = ⟨.unused, 0, false, [], [], 0⟩) ∧
      (s.thread 0 = ⟨0, .loop, [], 1, none⟩ ∧ s.threads = 1) ∧
      s.call = .none ∧ s.nstations = 1 ∧ s.clients = [])
    (ConductorState.step n)

/-! ### Counting events -/

theorem StationSlot.count_of_used {r : StationSlot} (h : r.status ≠ .unused) (e : ℕ) :
    r.count e = r.listIn.count e + r.listOut.count e :=
  if_neg h

theorem StationSlot.count_setIn {r : StationSlot} (h : r.status ≠ .unused) (events : List ℕ)
    (e : ℕ) : (r.setIn events).count e = events.count e + r.listOut.count e :=
  if_neg h

theorem StationSlot.count_setOut {r : StationSlot} (h : r.status ≠ .unused) (events : List ℕ)
    (e : ℕ) : (r.setOut events).count e = r.listIn.count e + events.count e :=
  if_neg h

namespace ConductorState

variable {n nevents : ℕ} {s t : ConductorState}

theorem setSlot_self (i : ℕ) (r : StationSlot) : (s.setSlot i r).slot i = r :=
  Function.update_self ..

theorem setSlot_of_ne {i j : ℕ} (h : j ≠ i) (r : StationSlot) :
    (s.setSlot i r).slot j = s.slot j :=
  Function.update_of_ne h ..

theorem setThread_self (u : ℕ) (r : ConductorThread) : (s.setThread u r).thread u = r :=
  Function.update_self ..

theorem setThread_of_ne {u v : ℕ} (h : v ≠ u) (r : ConductorThread) :
    (s.setThread u r).thread v = s.thread v :=
  Function.update_of_ne h ..

theorem count_setSlot {i : ℕ} (hi : i < n) (r : StationSlot) (e : ℕ) :
    (s.setSlot i r).count n e + (s.slot i).count e = s.count n e + r.count e := by
  have hsum := sum_weight_update (Finset.mem_range.mpr hi) (StationSlot.count · e) s.slot r
  unfold count setSlot
  dsimp only
  omega

theorem count_setThread {u : ℕ} (hu : u < s.threads) (r : ConductorThread) (e : ℕ) :
    (s.setThread u r).count n e + (s.thread u).events.count e =
      s.count n e + r.events.count e := by
  have hsum := sum_weight_update (Finset.mem_range.mpr hu) (fun r => r.events.count e) s.thread r
  unfold count setThread
  dsimp only
  omega

theorem count_setClients (s : ConductorState) (clients : List ℕ) (e : ℕ) :
    (s.setClients clients).count n e + s.clients.count e =
      s.count n e + clients.count e := by
  unfold count setClients
  dsimp only
  omega

/-- What a signal does: it changes where a thread is, which waited. -/
theorem notify_cases {i woken : ℕ} (h : s.notify i woken = some t) :
    (s.Waits woken i ∧ t = s.setThread woken ((s.thread woken).setPc (.waiting true))) ∨
      (∀ u, ¬ s.Waits u i) ∧ t = s := by
  unfold notify at h
  split at h
  case isTrue hwaits => exact .inl ⟨hwaits, (Option.some.inj h).symm⟩
  case isFalse =>
    split at h
    case isTrue => cases h
    case isFalse hnone =>
      exact .inr ⟨fun u hu => hnone ⟨u, hu.1, hu⟩, (Option.some.inj h).symm⟩

theorem count_notify {i woken : ℕ} (h : s.notify i woken = some t) (e : ℕ) :
    t.count n e = s.count n e := by
  rcases notify_cases h with ⟨hwaits, rfl⟩ | ⟨-, rfl⟩
  · exact Nat.add_right_cancel (count_setThread hwaits.1 _ e)
  · rfl

theorem status_setIn (i j : ℕ) (events : List ℕ) :
    ((s.setSlot i ((s.slot i).setIn events)).slot j).status = (s.slot j).status := by
  rcases eq_or_ne j i with rfl | hne
  · rw [setSlot_self]
    rfl
  · rw [setSlot_of_ne hne]

/-- Nothing but input lists changes where events are put into them. -/
theorem deliver_frame (events places : List ℕ) (s : ConductorState) :
    (deliver events places s).thread = s.thread ∧
      (deliver events places s).threads = s.threads ∧
      (deliver events places s).clients = s.clients := by
  induction events generalizing places s with
  | nil => exact ⟨rfl, rfl, rfl⟩
  | cons a events ih =>
      obtain _ | ⟨i, places⟩ := places
      · exact ⟨rfl, rfl, rfl⟩
      · exact ih places _

/-- Each event is in the input list that it is put into. -/
theorem count_deliver {events places : List ℕ} (hlength : places.length = events.length)
    (hplaces : ∀ i ∈ places, i < n ∧ (s.slot i).status = .active) (e : ℕ) :
    (deliver events places s).count n e = s.count n e + events.count e := by
  induction events generalizing places s with
  | nil => rfl
  | cons a events ih =>
      obtain _ | ⟨i, places⟩ := places
      · cases hlength
      obtain ⟨hi, hactive⟩ := hplaces i List.mem_cons_self
      have hrest : ∀ j ∈ places, j < n ∧
          ((s.setSlot i ((s.slot i).setIn ((s.slot i).listIn ++ [a]))).slot j).status = .active := by
        intro j hj
        obtain ⟨hjn, hj⟩ := hplaces j (List.mem_cons_of_mem _ hj)
        exact ⟨hjn, (status_setIn ..).trans hj⟩
      have hslot := count_setSlot (s := s) hi ((s.slot i).setIn ((s.slot i).listIn ++ [a])) e
      have hhere : (s.slot i).status ≠ .unused := by
        rw [hactive]
        exact nofun
      rw [StationSlot.count_setIn hhere, StationSlot.count_of_used hhere, List.count_append] at hslot
      have hcons : (a :: events).count e = [a].count e + events.count e :=
        @List.count_append _ _ e [a] events
      rw [deliver, ih (Nat.succ.inj hlength) hrest, hcons]
      omega

end ConductorState

/-! ### The invariant -/

namespace StationCall

/-- The slot that the call is about. -/
def target : StationCall → Option ℕ
  | .none => Option.none
  | .created i | .notStarted i | .started i | .notInserted i | .removed i | .locked i
  | .marked i _ | .signalled i _ => some i

/-- The status of that slot. -/
def status : StationCall → StationStatus
  | .created _ | .notStarted _ => .creating
  | _ => .idle

/-- The conductor is being killed; `true` when it has been signalled. -/
def killing : StationCall → Option Bool
  | .marked _ _ => some false
  | .signalled _ _ => some true
  | _ => Option.none

end StationCall

namespace ConductorState

variable {n nevents : ℕ} {s t : ConductorState}

/-- The conductor of slot `i` waits on an empty list and is to end. -/
structure Dying (s : ConductorState) (i : ℕ) (signalled : Bool) : Prop where
  kill : (s.slot i).kill = true
  listOut : (s.slot i).listOut = []
  waits : ∀ u, s.Serves u i →
    (s.thread u).pc = .waiting true ∨ signalled = false ∧ (s.thread u).pc = .waiting false

/-- A slot, and the threads that serve it. -/
structure SlotOk (s : ConductorState) (call : StationCall) (i : ℕ) : Prop where
  served : (s.slot i).Exists → ∃! u, s.Serves u i
  station : ∀ u, s.Serves u i → (s.thread u).station = (s.slot i).station
  creating : (s.slot i).status = .creating → (∀ u, ¬ s.Serves u i) ∧ call.target = some i
  unused : (s.slot i).status = .unused → ∀ u, s.Serves u i →
    (s.thread u).pc = .waiting true ∧ (s.slot i).kill = true
  listIn : (s.slot i).status ≠ .active → (s.slot i).listIn = []
  listOut : ¬ (s.slot i).Exists → (s.slot i).listOut = []
  attached : i ≠ 0 → (s.slot i).status = .active → (s.slot i).nattachments ≠ 0

/-- The slot of the call in progress. -/
structure CallOk (n : ℕ) (s : ConductorState) (call : StationCall) : Prop where
  target : ∀ i, call.target = some i → i < n ∧ (s.slot i).status = call.status
  killing : ∀ i signalled, call.target = some i → call.killing = some signalled →
    s.Dying i signalled

/-- One thread. -/
structure ThreadOk (n : ℕ) (r : ConductorThread) : Prop where
  slot : r.slot < n
  events : r.pc ≠ .batch → r.events = []
  read : ∀ k, r.read = some k → k = r.station

/-- **The invariant of orderly runs**, the number of places of each event apart. -/
structure Inv (n : ℕ) (s : ConductorState) : Prop where
  slots : ∀ i < n, s.SlotOk s.call i
  threads : ∀ u < s.threads, ThreadOk n (s.thread u)
  call : s.CallOk n s.call

theorem Serves.slot {u i : ℕ} (h : s.Serves u i) : (s.thread u).slot = i := h.2.2

/-- A thread that is busy serves a station that exists. -/
theorem Inv.exists_of_busy (h : s.Inv n) {u : ℕ} (hu : u < s.threads)
    (hexited : (s.thread u).pc ≠ .exited) (hwaiting : (s.thread u).pc ≠ .waiting true) :
    (s.slot (s.thread u).slot).Exists := by
  have hslot := h.slots _ (h.threads u hu).slot
  have hserves : s.Serves u (s.thread u).slot := ⟨hu, hexited, rfl⟩
  cases hstatus : (s.slot (s.thread u).slot).status with
  | unused => exact absurd (hslot.unused hstatus u hserves).1 hwaiting
  | creating => exact absurd hserves ((hslot.creating hstatus).1 u)
  | idle => exact .inl hstatus
  | active => exact .inr hstatus

/-- And so does one that comes back from its wait and does not find the mark. -/
theorem Inv.exists_of_woken (h : s.Inv n) {u : ℕ} (hu : u < s.threads)
    (hpc : (s.thread u).pc = .waiting true ∨ (s.thread u).pc = .waiting false)
    (hkill : ¬ (s.slot (s.thread u).slot).kill = true) : (s.slot (s.thread u).slot).Exists := by
  have hslot := h.slots _ (h.threads u hu).slot
  have hserves : s.Serves u (s.thread u).slot := by
    refine ⟨hu, ?_, rfl⟩
    rcases hpc with hpc | hpc <;> (rw [hpc]; exact nofun)
  cases hstatus : (s.slot (s.thread u).slot).status with
  | unused => exact absurd (hslot.unused hstatus u hserves).2 hkill
  | creating => exact absurd hserves ((hslot.creating hstatus).1 u)
  | idle => exact .inl hstatus
  | active => exact .inr hstatus

/-- The slot of the call in progress is not ACTIVE. -/
theorem Inv.not_active (h : s.Inv n) {i : ℕ} (hi : s.call.target = some i) :
    (s.slot i).status ≠ .active := by
  rw [(h.call.target i hi).2]
  unfold StationCall.status
  split <;> exact nofun

/-- A slot that a step has nothing to do with. -/
theorem SlotOk.frame {call call' : StationCall} {i : ℕ} (h : s.SlotOk call i)
    (hslot : t.slot i = s.slot i) (hserves : ∀ u, t.Serves u i ↔ s.Serves u i)
    (hthread : ∀ u, s.Serves u i → t.thread u = s.thread u)
    (hcall : call.target = some i → call'.target = some i) : t.SlotOk call' i := by
  refine ⟨?_, fun u hu => ?_, ?_, ?_, ?_, ?_, ?_⟩
  · simp only [hslot, hserves]
    exact h.served
  · have hu := (hserves u).mp hu
    rw [hthread u hu, hslot]
    exact h.station u hu
  · rw [hslot]
    intro hcreating
    obtain ⟨hnone, htarget⟩ := h.creating hcreating
    exact ⟨fun u hu => hnone u ((hserves u).mp hu), hcall htarget⟩
  · rw [hslot]
    intro hunused u hu
    have hu := (hserves u).mp hu
    rw [hthread u hu]
    exact h.unused hunused u hu
  · rw [hslot]
    exact h.listIn
  · rw [hslot]
    exact h.listOut
  · rw [hslot]
    exact h.attached

/-- The call goes on, with nothing else changed. -/
theorem Inv.setCall (h : s.Inv n) {c : StationCall} {clients : List ℕ} {k : ℕ}
    (htarget : ∀ i, s.call.target = some i → c.target = some i ∨ s.call.status = .idle)
    (hcall : s.CallOk n c) :
    ({ s with
      call := c
      clients := clients
      nstations := k } : ConductorState).Inv n := by
  refine ⟨fun i hi => ?_, h.threads, ⟨hcall.target, fun i signalled hi hk => ?_⟩⟩
  · have hslot := h.slots i hi
    refine ⟨hslot.served, hslot.station, fun hcreating => ?_, hslot.unused, hslot.listIn,
      hslot.listOut, hslot.attached⟩
    obtain ⟨hnone, hi⟩ := hslot.creating hcreating
    refine ⟨hnone, (htarget i hi).resolve_right fun hidle => ?_⟩
    exact absurd ((h.call.target i hi).2.symm.trans hcreating) (by rw [hidle]; exact nofun)
  · obtain ⟨hkill, hout, hwaits⟩ := hcall.killing i signalled hi hk
    exact ⟨hkill, hout, hwaits⟩

/-- One slot changes. -/
theorem Inv.setSlot (h : s.Inv n) {i : ℕ} {r : StationSlot} {c : StationCall}
    {clients : List ℕ} {nstations : ℕ}
    (hcall : ∀ j, s.call.target = some j → j = i ∨ c.target = some j)
    (hslot : (s.setSlot i r).SlotOk c i) (hok : (s.setSlot i r).CallOk n c) :
    ({ s.setSlot i r with
      call := c
      clients := clients
      nstations := nstations } : ConductorState).Inv n := by
  refine ⟨fun j hj => ?_, h.threads, ⟨hok.target, fun j signalled hj hk => ?_⟩⟩
  · rcases eq_or_ne j i with rfl | hne
    · exact ⟨hslot.served, hslot.station, hslot.creating, hslot.unused, hslot.listIn,
        hslot.listOut, hslot.attached⟩
    · exact (h.slots j hj).frame (setSlot_of_ne hne r) (fun u => Iff.rfl)
        (fun _ _ => rfl) fun hj => (hcall j hj).resolve_left hne
  · obtain ⟨hkill, hout, hwaits⟩ := hok.killing j signalled hj hk
    exact ⟨hkill, hout, hwaits⟩

/-- One thread goes on. -/
theorem Inv.setThread (h : s.Inv n) {u : ℕ} {r : ConductorThread} (hu : u < s.threads)
    (hold : (s.thread u).pc ≠ .exited) (hpc : r.pc ≠ .exited)
    (hslot : r.slot = (s.thread u).slot) (hstation : r.station = (s.thread u).station)
    (hevents : r.pc ≠ .batch → r.events = [])
    (hread : ∀ k, r.read = some k → k = r.station)
    (hunused : (s.slot r.slot).status = .unused → r.pc = .waiting true)
    (hdying : ∀ signalled, s.Dying r.slot signalled →
      r.pc = .waiting true ∨ signalled = false ∧ r.pc = .waiting false) :
    (s.setThread u r).Inv n := by
  have hserves : ∀ v i, (s.setThread u r).Serves v i ↔ s.Serves v i := by
    intro v i
    unfold Serves ConductorState.setThread
    rcases eq_or_ne v u with rfl | hne
    · simp only [Function.update_self, hslot, ne_eq, hpc, hold, not_false_eq_true]
    · simp only [Function.update_of_ne hne]
  have hother : ∀ v, v ≠ u → (s.setThread u r).thread v = s.thread v := fun v hv =>
    setThread_of_ne hv r
  have hself : (s.setThread u r).thread u = r := setThread_self u r
  refine ⟨fun i hi => ?_, fun v hv => ?_, ⟨h.call.target, fun i signalled hi hk => ?_⟩⟩
  · have hslots := h.slots i hi
    refine ⟨?_, fun v hv => ?_, fun hc => ?_, fun hunu v hv => ?_, hslots.listIn, hslots.listOut,
      hslots.attached⟩
    · simp only [hserves]
      exact hslots.served
    · have hst := hslots.station v ((hserves v i).mp hv)
      rcases eq_or_ne v u with rfl | hne
      · rw [hself, hstation]
        exact hst
      · rw [hother v hne]
        exact hst
    · exact ⟨fun v hv => (hslots.creating hc).1 v ((hserves v i).mp hv), (hslots.creating hc).2⟩
    · have hold := hslots.unused hunu v ((hserves v i).mp hv)
      refine ⟨?_, hold.2⟩
      rcases eq_or_ne v u with rfl | hne
      · rw [hself]
        apply hunused
        have hi := hv.slot
        rw [hself] at hi
        rw [hi]
        exact hunu
      · rw [hother v hne]
        exact hold.1
  · rcases eq_or_ne v u with rfl | hne
    · rw [hself]
      exact ⟨hslot ▸ (h.threads v hv).slot, hevents, hread⟩
    · rw [hother v hne]
      exact h.threads v hv
  · have hd := h.call.killing i signalled hi hk
    refine ⟨hd.kill, hd.listOut, fun v hv => ?_⟩
    rcases eq_or_ne v u with rfl | hne
    · have hi := hv.slot
      rw [hself] at hi ⊢
      exact hdying signalled (hi ▸ hd)
    · rw [hother v hne]
      exact hd.waits v ((hserves v i).mp hv)

/-! ### One step -/

theorem Inv.notify (h : s.Inv n) {i woken : ℕ} (hstep : s.notify i woken = some t) : t.Inv n := by
  rcases notify_cases hstep with ⟨⟨hu, hpc, -⟩, rfl⟩ | ⟨-, rfl⟩
  · have hevents := (h.threads woken hu).events (by rw [hpc]; exact nofun)
    exact h.setThread hu (by rw [hpc]; exact nofun) nofun rfl rfl (fun _ => hevents)
      (h.threads woken hu).read (fun _ => rfl) fun _ _ => .inl rfl
  · exact h

/-- A station goes on to exist, with its conductor. -/
theorem Inv.setStation (h : s.Inv n) {i : ℕ} {r : StationSlot} (hi : i < n)
    (hexists : (s.slot i).Exists) (hr : r.Exists) (hstation : r.station = (s.slot i).station)
    (hin : r.status ≠ .active → r.listIn = [])
    (hattached : i ≠ 0 → r.status = .active → r.nattachments ≠ 0)
    (hcall : s.call.target = some i → r.status = (s.slot i).status ∧ s.call.killing = none) :
    (s.setSlot i r).Inv n := by
  have hslot := h.slots i hi
  have hself : (s.setSlot i r).slot i = r := setSlot_self i r
  refine h.setSlot (fun _ hj => .inr hj) ⟨fun _ => ?_, ?_, ?_, ?_, ?_, ?_, ?_⟩ ⟨fun j hj => ?_, ?_⟩
  · exact hslot.served hexists
  · rw [hself, hstation]
    exact hslot.station
  · rw [hself]
    intro hcreating
    rcases hr with he | he <;> exact absurd (hcreating.symm.trans he) nofun
  · rw [hself]
    intro hunused
    rcases hr with he | he <;> exact absurd (hunused.symm.trans he) nofun
  · rw [hself]
    exact hin
  · rw [hself]
    exact fun hno => absurd hr hno
  · rw [hself]
    exact hattached
  · obtain ⟨hjn, hstatus⟩ := h.call.target j hj
    refine ⟨hjn, ?_⟩
    rcases eq_or_ne j i with rfl | hne
    · rw [hself, (hcall hj).1, hstatus]
    · rw [setSlot_of_ne hne, hstatus]
  · intro j signalled hj hk
    have hne : j ≠ i := by
      rintro rfl
      exact absurd (hk.symm.trans (hcall hj).2) nofun
    obtain ⟨hkill, hout, hwaits⟩ := h.call.killing j signalled hj hk
    refine ⟨?_, ?_, hwaits⟩
    · rw [setSlot_of_ne hne]
      exact hkill
    · rw [setSlot_of_ne hne]
      exact hout

/-- The output list of a station changes whose conductor is not being killed. -/
theorem Inv.setOut (h : s.Inv n) {i : ℕ} (hi : i < n) (hexists : (s.slot i).Exists)
    (hcall : s.call.target = some i → s.call.killing = none) (events : List ℕ) :
    (s.setSlot i ((s.slot i).setOut events)).Inv n :=
  h.setStation hi hexists hexists rfl (h.slots i hi).listIn (h.slots i hi).attached
    fun hi => ⟨rfl, hcall hi⟩

/-- The input list of an ACTIVE station changes. -/
theorem Inv.setIn (h : s.Inv n) {i : ℕ} (hi : i < n) (hactive : (s.slot i).status = .active)
    (events : List ℕ) : (s.setSlot i ((s.slot i).setIn events)).Inv n := by
  refine h.setStation hi (.inr hactive) (.inr hactive) rfl (fun hne => absurd hactive hne)
    (h.slots i hi).attached fun hi => ?_
  exact absurd hactive (h.not_active hi)

theorem Inv.deliver (h : s.Inv n) {events places : List ℕ}
    (hplaces : ∀ i ∈ places, i < n ∧ (s.slot i).status = .active) :
    (ConductorState.deliver events places s).Inv n := by
  induction events generalizing places s with
  | nil => exact h
  | cons a events ih =>
      obtain _ | ⟨i, places⟩ := places
      · exact h
      obtain ⟨hi, hactive⟩ := hplaces i List.mem_cons_self
      rw [ConductorState.deliver]
      refine ih (h.setIn hi hactive _) fun j hj => ?_
      obtain ⟨hjn, hj⟩ := hplaces j (List.mem_cons_of_mem _ hj)
      exact ⟨hjn, (status_setIn _ _ _).trans hj⟩

/-- What a conductor does that has the list's mutex. -/
theorem Inv.readOrWait (h : s.Inv n) {u : ℕ} (hu : u < s.threads)
    (hexited : (s.thread u).pc ≠ .exited) (hbatch : (s.thread u).pc ≠ .batch)
    (hexists : (s.slot (s.thread u).slot).Exists)
    (hdying : ∀ signalled, ¬ s.Dying (s.thread u).slot signalled) : (s.readOrWait u).Inv n := by
  have hevents := (h.threads u hu).events hbatch
  have hused : (s.slot (s.thread u).slot).status ≠ .unused := by
    rcases hexists with he | he <;> (rw [he]; exact nofun)
  unfold ConductorState.readOrWait
  dsimp only
  split
  · exact h.setThread hu hexited nofun rfl rfl (fun _ => hevents) (h.threads u hu).read
      (fun hunused => absurd hunused hused) fun signalled hd => absurd hd (hdying signalled)
  · have hslot := h.slots _ (h.threads u hu).slot
    have hread : ∀ k, some (s.slot (s.thread u).slot).station = some k → k = (s.thread u).station := by
      intro k hk
      rw [← Option.some.inj hk]
      exact (hslot.station u ⟨hu, hexited, rfl⟩).symm
    have hthread := h.setThread (r := (s.thread u).takeBatch (s.slot (s.thread u).slot).listOut
        (s.slot (s.thread u).slot).station) hu hexited nofun rfl rfl
      (fun hne => absurd rfl hne) hread (fun hunused => absurd hunused hused)
      fun signalled hd => absurd hd (hdying signalled)
    refine hthread.setOut (h.threads u hu).slot hexists (fun htarget => ?_) []
    cases hkilling : s.call.killing with
    | none => exact hkilling
    | some signalled => exact absurd (h.call.killing _ _ htarget hkilling) (hdying signalled)

/-- A slot that no thread serves is used for a new station. -/
theorem Inv.reserve (h : s.Inv n) {i : ℕ} (hcall : s.call = .none) (hi : i < n)
    (hnone : ∀ u, ¬ s.Serves u i) : (s.reserve i).Inv n := by
  have hself : (s.setSlot i (s.slot i).create).slot i = (s.slot i).create := setSlot_self ..
  have hstatus : (s.slot i).create.status = .creating := rfl
  refine h.setSlot (c := .created i) (fun j hj => ?_) ⟨?_, fun u hu => absurd hu (hnone u), ?_,
    ?_, ?_, ?_, ?_⟩ ⟨fun j hj => ?_, nofun⟩
  · rw [hcall] at hj
    cases hj
  · rw [hself]
    rintro (he | he) <;> cases he
  · exact fun _ => ⟨hnone, rfl⟩
  · rw [hself]
    exact nofun
  · rw [hself]
    exact fun _ => rfl
  · rw [hself]
    exact fun _ => rfl
  · rw [hself]
    exact nofun
  · obtain rfl := Option.some.inj hj
    rw [hself]
    exact ⟨hi, rfl⟩

/-- The conductor of a new station starts. -/
theorem Inv.addThread (h : s.Inv n) {i : ℕ} (hcall : s.call = .created i) :
    (s.addThread i).Inv n := by
  obtain ⟨hi, hstatus⟩ : i < n ∧ (s.slot i).status = .creating := by
    have := h.call.target i (by rw [hcall]; rfl)
    rwa [hcall] at this
  have hold := h.slots i hi
  have hnone := (hold.creating hstatus).1
  have hne : ∀ u, u < s.threads → u ≠ s.threads := fun u hu => Nat.ne_of_lt hu
  have hthread : ∀ u, u < s.threads → (s.addThread i).thread u = s.thread u := fun u hu =>
    Function.update_of_ne (hne u hu) ..
  have hnew : (s.addThread i).thread s.threads = ⟨i, .loop, [], (s.slot i).station, none⟩ :=
    Function.update_self ..
  have hserves : ∀ u j, (s.addThread i).Serves u j ↔ s.Serves u j ∨ u = s.threads ∧ j = i := by
    intro u j
    unfold Serves
    rcases eq_or_ne u s.threads with rfl | hu
    · rw [hnew]
      change s.threads < s.threads + 1 ∧ ConductorPc.loop ≠ .exited ∧ i = j ↔ _
      simp [eq_comm]
    · have hlt : u < (s.addThread i).threads ↔ u < s.threads := by
        change u < s.threads + 1 ↔ _
        omega
      have hsame : (s.addThread i).thread u = s.thread u := Function.update_of_ne hu ..
      rw [hlt, hsame]
      simp [hu]
  have hself : (s.addThread i).slot i = (s.slot i).setStatus .idle := setSlot_self ..
  refine ⟨fun j hj => ?_, fun u hu => ?_, ⟨fun j hj => ?_, nofun⟩⟩
  · rcases eq_or_ne j i with rfl | hji
    · have honly : ∀ u, (s.addThread j).Serves u j → u = s.threads := by
        intro u hu
        rcases (hserves u j).mp hu with hu | hu
        · exact absurd hu (hnone u)
        · exact hu.1
      refine ⟨fun _ => ⟨s.threads, (hserves _ _).mpr (.inr ⟨rfl, rfl⟩), honly⟩, fun u hu => ?_, ?_,
        ?_, fun _ => ?_, fun hno => absurd ?_ hno, ?_⟩
      · obtain rfl := honly u hu
        rw [hnew, hself]
        rfl
      · rw [hself]
        exact nofun
      · rw [hself]
        exact nofun
      · rw [hself]
        exact hold.listIn (by rw [hstatus]; exact nofun)
      · rw [hself]
        exact .inl rfl
      · rw [hself]
        exact nofun
    · refine (h.slots j hj).frame (setSlot_of_ne hji _) (fun u => ?_) (fun u hu => hthread u hu.1)
        fun htarget => ?_
      · rw [hserves]
        exact or_iff_left fun hu => hji hu.2
      · rw [hcall] at htarget
        exact absurd (Option.some.inj htarget).symm hji
  · rcases eq_or_ne u s.threads with rfl | hne
    · rw [hnew]
      exact ⟨hi, fun _ => rfl, nofun⟩
    · have hlt : u < s.threads := Nat.lt_of_le_of_ne (Nat.le_of_lt_succ hu) hne
      rw [hthread u hlt]
      exact h.threads u hlt
  · obtain rfl := Option.some.inj hj
    exact ⟨hi, by rw [hself]; rfl⟩

/-- A conductor ends whose station is gone. -/
theorem Inv.exit (h : s.Inv n) {u : ℕ} (hu : u < s.threads) (hbatch : (s.thread u).pc ≠ .batch)
    (hunused : (s.slot (s.thread u).slot).status = .unused) :
    (s.setThread u ((s.thread u).setPc .exited)).Inv n := by
  have hother : ∀ v, v ≠ u → (s.setThread u ((s.thread u).setPc .exited)).thread v = s.thread v :=
    fun v hv => setThread_of_ne hv _
  have hself : (s.setThread u ((s.thread u).setPc .exited)).thread u =
    (s.thread u).setPc .exited := setThread_self ..
  have hnot : ∀ i, ¬ (s.setThread u ((s.thread u).setPc .exited)).Serves u i := by
    rintro i ⟨-, hpc, -⟩
    rw [hself] at hpc
    exact hpc rfl
  have hserves : ∀ v i, (s.setThread u ((s.thread u).setPc .exited)).Serves v i →
      v ≠ u ∧ s.Serves v i := by
    intro v i hv
    have hne : v ≠ u := by
      rintro rfl
      exact hnot i hv
    refine ⟨hne, ?_⟩
    unfold Serves at hv
    rw [hother v hne] at hv
    exact hv
  have hback : ∀ v i, i ≠ (s.thread u).slot → s.Serves v i →
      (s.setThread u ((s.thread u).setPc .exited)).Serves v i := by
    intro v i hi hv
    have hne : v ≠ u := by
      rintro rfl
      exact hi hv.slot.symm
    unfold Serves
    rw [hother v hne]
    exact hv
  refine ⟨fun i hi => ?_, fun v hv => ?_, ⟨h.call.target, fun i signalled hi hk => ?_⟩⟩
  · have hold := h.slots i hi
    rcases eq_or_ne i (s.thread u).slot with rfl | hne
    · refine ⟨fun hexists => ?_, fun v hv => ?_, fun hc => absurd (hunused.symm.trans hc) nofun,
        fun hs v hv => ?_, hold.listIn, hold.listOut, hold.attached⟩
      · rcases hexists with he | he <;> exact absurd (hunused.symm.trans he) nofun
      · obtain ⟨hne, hv⟩ := hserves v _ hv
        rw [hother v hne]
        exact hold.station v hv
      · obtain ⟨hne, hv⟩ := hserves v _ hv
        rw [hother v hne]
        exact hold.unused hs v hv
    · refine hold.frame rfl (fun v => ⟨fun hv => (hserves v i hv).2, hback v i hne⟩)
        (fun v hv => hother v ?_) id
      rintro rfl
      exact hne hv.slot.symm
  · rcases eq_or_ne v u with rfl | hne
    · rw [hself]
      exact ⟨(h.threads v hv).slot, fun _ => (h.threads v hv).events hbatch, (h.threads v hv).read⟩
    · rw [hother v hne]
      exact h.threads v hv
  · obtain ⟨hkill, hout, hwaits⟩ := h.call.killing i signalled hi hk
    refine ⟨hkill, hout, fun v hv => ?_⟩
    obtain ⟨hne, hv⟩ := hserves v i hv
    rw [hother v hne]
    exact hwaits v hv

/-- The kill mark is set for a conductor that waits. -/
theorem Inv.mark (h : s.Inv n) {i : ℕ} (htarget : s.call.target = some i)
    (hstatus : s.call.status = .idle) (hout : (s.slot i).listOut = [])
    (hwaits : ∀ u < s.threads, s.Serves u i →
      (s.thread u).pc = .waiting true ∨ (s.thread u).pc = .waiting false) (all : Bool) :
    ({ s.setSlot i (s.slot i).setKill with call := .marked i all } : ConductorState).Inv n := by
  obtain ⟨hi, hidle⟩ := h.call.target i htarget
  rw [hstatus] at hidle
  have hold := h.slots i hi
  have hself : (s.setSlot i (s.slot i).setKill).slot i = (s.slot i).setKill := setSlot_self ..
  refine h.setSlot (c := .marked i all) (fun j hj => ?_) ⟨fun _ => ?_, fun u hu => ?_, ?_, ?_,
    ?_, ?_, ?_⟩ ⟨fun j hj => ?_, fun j signalled hj hk => ?_⟩
  · rw [htarget] at hj
    exact .inl (Option.some.inj hj).symm
  · exact hold.served (.inl hidle)
  · rw [hself]
    exact hold.station u hu
  · rw [hself]
    exact fun hc => absurd (hidle.symm.trans hc) nofun
  · rw [hself]
    exact fun hc => absurd (hidle.symm.trans hc) nofun
  · rw [hself]
    exact hold.listIn
  · rw [hself]
    exact fun _ => hout
  · rw [hself]
    exact hold.attached
  · obtain rfl := Option.some.inj hj
    rw [hself]
    exact ⟨hi, hidle⟩
  · obtain rfl := Option.some.inj hj
    obtain rfl := Option.some.inj hk
    refine ⟨?_, ?_, fun u hu => (hwaits u hu.1 hu).imp_right fun hw => ⟨rfl, hw⟩⟩
    · rw [hself]
      rfl
    · rw [hself]
      exact hout

/-- The station of a call ceases to be, and the call is over. -/
theorem Inv.endCall (h : s.Inv n) {i nstations : ℕ} {r : StationSlot}
    (htarget : s.call.target = some i) (hr : r.status = .unused) (hin : r.listIn = [])
    (hout : r.listOut = [])
    (hthreads : ∀ u, s.Serves u i → (s.thread u).station = r.station ∧
      (s.thread u).pc = .waiting true ∧ r.kill = true) :
    ({ s.setSlot i r with
      call := .none
      nstations := nstations } : ConductorState).Inv n := by
  have hself : (s.setSlot i r).slot i = r := setSlot_self ..
  refine h.setSlot (c := .none) (fun j hj => ?_) ⟨?_, fun u hu => ?_, ?_, fun _ u hu => ?_, ?_, ?_,
    ?_⟩ ⟨nofun, nofun⟩
  · rw [htarget] at hj
    exact .inl (Option.some.inj hj).symm
  · rw [hself]
    rintro (he | he) <;> exact absurd (hr.symm.trans he) nofun
  · rw [hself]
    exact (hthreads u hu).1
  · rw [hself]
    exact fun hc => absurd (hr.symm.trans hc) nofun
  · rw [hself]
    exact (hthreads u hu).2
  · rw [hself]
    exact fun _ => hin
  · rw [hself]
    exact fun _ => hout
  · rw [hself]
    exact fun _ hc => absurd (hr.symm.trans hc) nofun

theorem Inv.signal (h : s.Inv n) {i woken : ℕ} {all : Bool} (hcall : s.call = .marked i all)
    (hstep : s.notify i woken = some t) :
    ({ t with call := .signalled i all } : ConductorState).Inv n := by
  have hd : s.Dying i false := h.call.killing i false (by rw [hcall]; rfl) (by rw [hcall]; rfl)
  have ht := h.notify hstep
  have hsame : t.call = s.call ∧ t.slot = s.slot := by
    rcases notify_cases hstep with ⟨-, rfl⟩ | ⟨-, rfl⟩ <;> exact ⟨rfl, rfl⟩
  have htarget : t.call.target = some i := by
    rw [hsame.1, hcall]
    rfl
  obtain ⟨hi, hidle⟩ := ht.call.target i htarget
  rw [hsame.1, hcall] at hidle
  obtain ⟨u, hu, honly⟩ := (h.slots i hi).served (.inl (hsame.2 ▸ hidle))
  refine ht.setCall (fun j hj => ?_)
    ⟨fun j hj => ?_, fun j signalled hj hk => ?_⟩
  · exact .inl (htarget.symm.trans hj ▸ rfl)
  · obtain rfl := Option.some.inj hj
    exact ⟨hi, hidle⟩
  · obtain rfl := Option.some.inj hj
    obtain rfl := Option.some.inj hk
    refine ⟨hsame.2 ▸ hd.kill, hsame.2 ▸ hd.listOut, fun v hv => .inl ?_⟩
    rcases notify_cases hstep with ⟨hw, rfl⟩ | ⟨hnone, rfl⟩
    · have hwoken : s.Serves woken i := ⟨hw.1, by rw [hw.2.1]; exact nofun, hw.2.2⟩
      rcases eq_or_ne v woken with rfl | hne
      · rw [setThread_self]
        rfl
      · unfold Serves at hv
        rw [setThread_of_ne hne] at hv
        exact absurd ((honly v hv).trans (honly woken hwoken).symm) hne
    · rcases hd.waits v hv with hw | ⟨-, hw⟩
      · exact hw
      · exact absurd ⟨hv.1, hw, hv.2.2⟩ (hnone v)

/-- **Orderly steps keep the invariant.** -/
theorem Inv.step (h : s.Inv n) {a : ConductorAct} (hok : s.Orderly n a)
    (hstep : s.step n a = some t) : t.Inv n := by
  cases a with
  | create =>
      rw [ConductorState.step, Option.ite_none_right_eq_some] at hstep
      obtain ⟨⟨hcall, -⟩, hstep⟩ := hstep
      obtain ⟨i, hfree, rfl⟩ := Option.map_eq_some_iff.mp hstep
      have hi : i < n := List.mem_range.mp (List.mem_of_find?_eq_some hfree)
      exact h.reserve hcall hi fun u hu => hok i hfree u hu.1 hu
  | start ok =>
      rw [ConductorState.step] at hstep
      split at hstep
      case h_1 i hcall =>
        obtain rfl := Option.some.inj hstep
        split
        · exact h.addThread hcall
        · refine h.setCall (fun j hj => .inl ?_) ⟨fun j hj => ?_, nofun⟩
          · rwa [hcall] at hj
          · have := h.call.target j (by rw [hcall]; exact hj)
            rwa [hcall] at this
      case h_2 => cases hstep
  | giveUp =>
      rw [ConductorState.step] at hstep
      split at hstep
      case h_1 i hcall =>
        obtain rfl := Option.some.inj hstep
        have htarget : s.call.target = some i := by rw [hcall]; rfl
        obtain ⟨hi, hstatus⟩ := h.call.target i htarget
        rw [hcall] at hstatus
        refine h.endCall htarget rfl rfl rfl fun u hu => ?_
        exact absurd hu (((h.slots i hi).creating hstatus).1 u)
      case h_2 => cases hstep
  | insert ok =>
      rw [ConductorState.step] at hstep
      split at hstep
      case h_1 i hcall =>
        obtain rfl := Option.some.inj hstep
        have hidle : s.call.status = .idle := by rw [hcall]; rfl
        refine h.setCall (fun _ _ => .inr hidle) ?_
        split
        · exact ⟨nofun, nofun⟩
        · refine ⟨fun j hj => ?_, nofun⟩
          have := h.call.target j (by rw [hcall]; exact hj)
          rwa [hidle] at this
      case h_2 => cases hstep
  | remove i =>
      rw [ConductorState.step, Option.ite_none_right_eq_some] at hstep
      obtain ⟨⟨hcall, hne, hi, hnatt⟩, hstep⟩ := hstep
      obtain rfl := Option.some.inj hstep
      refine h.setCall (fun j hj => ?_) ⟨fun j hj => ?_, nofun⟩
      · rw [hcall] at hj
        cases hj
      · obtain rfl := Option.some.inj hj
        exact ⟨hi, hok.resolve_right fun hactive => (h.slots i hi).attached hne hactive hnatt⟩
  | relock =>
      rw [ConductorState.step] at hstep
      split at hstep
      case h_1 i hcall =>
        obtain rfl := Option.some.inj hstep
        refine h.setCall (fun j hj => .inl ?_) ⟨fun j hj => ?_, nofun⟩
        · rwa [hcall] at hj
        · have := h.call.target j (by rw [hcall]; exact hj)
          rwa [hcall] at this
      case h_2 => cases hstep
  | mark =>
      rw [ConductorState.step] at hstep
      unfold Orderly at hok
      split at hstep
      case h_1 i hcall =>
        obtain rfl := Option.some.inj hstep
        rw [hcall] at hok
        exact h.mark (by rw [hcall]; rfl) (by rw [hcall]; rfl) hok.1 hok.2 false
      case h_2 i hcall =>
        obtain rfl := Option.some.inj hstep
        rw [hcall] at hok
        exact h.mark (by rw [hcall]; rfl) (by rw [hcall]; rfl) hok.1 hok.2 true
      case h_3 => cases hstep
  | signal woken =>
      rw [ConductorState.step] at hstep
      split at hstep
      case h_1 i all hcall =>
        obtain ⟨r, hr, rfl⟩ := Option.map_eq_some_iff.mp hstep
        exact h.signal hcall hr
      case h_2 => cases hstep
  | free =>
      rw [ConductorState.step] at hstep
      split at hstep
      case h_1 i all hcall =>
        obtain rfl := Option.some.inj hstep
        have htarget : s.call.target = some i := by rw [hcall]; rfl
        obtain ⟨hi, hidle⟩ := h.call.target i htarget
        rw [hcall] at hidle
        have hd : s.Dying i true := h.call.killing i true htarget (by rw [hcall]; rfl)
        have hold := h.slots i hi
        refine h.endCall htarget rfl (hold.listIn (by rw [hidle]; exact nofun)) hd.listOut
          fun u hu => ⟨hold.station u hu, ?_, hd.kill⟩
        exact (hd.waits u hu).resolve_right fun hw => absurd hw.1 nofun
      case h_2 => cases hstep
  | attach i =>
      rw [ConductorState.step, Option.ite_none_right_eq_some] at hstep
      obtain ⟨⟨hcall, hi, hexists⟩, hstep⟩ := hstep
      obtain rfl := Option.some.inj hstep
      refine h.setStation hi hexists (.inr rfl) rfl (fun hne => absurd rfl hne)
        (fun _ _ => Nat.succ_ne_zero _) fun hj => ?_
      rw [hcall] at hj
      cases hj
  | detach i list woken =>
      rw [ConductorState.step, Option.ite_none_right_eq_some] at hstep
      obtain ⟨⟨hcall, hi, hactive, hnatt, hlist, hexists⟩, hstep⟩ := hstep
      have hno : ∀ {j : ℕ} {P : Prop}, s.call.target = some j → P := by
        intro j P hj
        rw [hcall] at hj
        cases hj
      split at hstep
      case isTrue hlast =>
        have hidle := h.setStation (r := (s.slot i).detachLast) hi (.inr hactive) (.inl rfl) rfl
          (fun _ => rfl) (fun _ => nofun) hno
        unfold ConductorState.flush at hstep
        split at hstep
        case isTrue =>
          obtain rfl := Option.some.inj hstep
          exact hidle
        case isFalse =>
          refine (hidle.setOut hlist ?_ hno _).notify hstep
          rcases eq_or_ne list i with rfl | hne
          · rw [setSlot_self]
            exact .inl rfl
          · rw [setSlot_of_ne hne]
            exact hexists
      case isFalse hlast =>
        obtain rfl := Option.some.inj hstep
        refine h.setStation hi (.inr hactive) (.inr hactive) rfl (h.slots i hi).listIn
          (fun hne _ hzero => ?_) hno
        change (s.slot i).nattachments - 1 = 0 at hzero
        omega
  | get i count =>
      rw [ConductorState.step, Option.ite_none_right_eq_some] at hstep
      obtain ⟨⟨hi, hactive, -⟩, hstep⟩ := hstep
      obtain rfl := Option.some.inj hstep
      exact (h.setIn hi hactive _).setCall (fun _ hj => .inl hj) (h.setIn hi hactive _).call
  | put i events woken =>
      rw [ConductorState.step, Option.ite_none_right_eq_some] at hstep
      obtain ⟨⟨hi, hactive, -⟩, hstep⟩ := hstep
      have hput := h.setOut hi (.inr hactive) (fun hj => absurd hactive (h.not_active hj))
        ((s.slot i).listOut ++ events)
      exact (hput.setCall (k := s.nstations) (fun _ hj => .inl hj) hput.call).notify hstep
  | test u =>
      rw [ConductorState.step, Option.ite_none_right_eq_some] at hstep
      obtain ⟨⟨hu, hpc⟩, hstep⟩ := hstep
      obtain rfl := Option.some.inj hstep
      have hexited : (s.thread u).pc ≠ .exited := by rw [hpc]; exact nofun
      refine h.readOrWait hu hexited (by rw [hpc]; exact nofun)
        (h.exists_of_busy hu hexited (by rw [hpc]; exact nofun)) fun signalled hd => ?_
      rcases hd.waits u ⟨hu, hexited, rfl⟩ with hw | ⟨-, hw⟩ <;> exact absurd (hpc.symm.trans hw) nofun
  | wake u =>
      rw [ConductorState.step, Option.ite_none_right_eq_some] at hstep
      obtain ⟨⟨hu, hpc⟩, hstep⟩ := hstep
      obtain rfl := Option.some.inj hstep
      have hexited : (s.thread u).pc ≠ .exited := by
        rcases hpc with hpc | hpc <;> (rw [hpc]; exact nofun)
      have hbatch : (s.thread u).pc ≠ .batch := by
        rcases hpc with hpc | hpc <;> (rw [hpc]; exact nofun)
      unfold ConductorState.resume
      split
      case isTrue hkill => exact h.exit hu hbatch (hok hkill)
      case isFalse hkill =>
        exact h.readOrWait hu hexited hbatch (h.exists_of_woken hu hpc hkill) fun signalled hd =>
          hkill hd.kill
  | conduct u places =>
      rw [ConductorState.step, Option.ite_none_right_eq_some] at hstep
      obtain ⟨⟨hu, hpc, -, -, hplaces⟩, hstep⟩ := hstep
      obtain rfl := Option.some.inj hstep
      have hd := @Inv.deliver _ _ h (s.thread u).events _ hplaces
      obtain ⟨hthread, hthreads, -⟩ := deliver_frame (s.thread u).events places s
      have hold : ((ConductorState.deliver (s.thread u).events places s).thread u).pc = .batch := by
        rw [hthread]
        exact hpc
      have hu' : u < (ConductorState.deliver (s.thread u).events places s).threads := by
        rw [hthreads]
        exact hu
      have hexited : ((ConductorState.deliver (s.thread u).events places s).thread u).pc ≠ .exited := by
        rw [hold]
        exact nofun
      have hbusy := hd.exists_of_busy hu' hexited (by rw [hold]; exact nofun)
      rw [hthread] at hbusy
      refine hd.setThread hu' hexited nofun (by rw [hthread]; rfl) (by rw [hthread]; rfl)
        (fun _ => rfl) (h.threads u hu).read (fun hunused => ?_) fun signalled hd => ?_
      · rcases hbusy with he | he <;> exact absurd (hunused.symm.trans he) nofun
      · rcases hd.waits u ⟨hu', hexited, by rw [hthread]; rfl⟩ with hw | ⟨-, hw⟩ <;>
          exact absurd (hold.symm.trans hw) nofun

/-! ### No event is lost -/

theorem count_readOrWait {u : ℕ} (h : s.Inv n) (hu : u < s.threads)
    (hbatch : (s.thread u).pc ≠ .batch) (hexists : (s.slot (s.thread u).slot).Exists) (e : ℕ) :
    (s.readOrWait u).count n e = s.count n e := by
  have hhere : (s.slot (s.thread u).slot).status ≠ .unused := by
    rcases hexists with he | he <;> (rw [he]; exact nofun)
  unfold readOrWait
  dsimp only
  split
  · exact Nat.add_right_cancel (count_setThread hu _ e)
  · have hthread := count_setThread (n := n) hu ((s.thread u).takeBatch
      (s.slot (s.thread u).slot).listOut (s.slot (s.thread u).slot).station) e
    have hslot := count_setSlot (s := s.setThread u ((s.thread u).takeBatch
      (s.slot (s.thread u).slot).listOut (s.slot (s.thread u).slot).station))
      (h.threads u hu).slot ((s.slot (s.thread u).slot).setOut []) e
    rw [StationSlot.count_setOut hhere, List.count_nil] at hslot
    have hold := StationSlot.count_of_used hhere e
    rw [(h.threads u hu).events hbatch, List.count_nil] at hthread
    change _ + (s.slot (s.thread u).slot).count e = _ at hslot
    change _ + 0 = _ + (s.slot (s.thread u).slot).listOut.count e at hthread
    omega

theorem count_addThread {i : ℕ} (hi : i < n) (hcreating : (s.slot i).status = .creating) (e : ℕ) :
    (s.addThread i).count n e = s.count n e := by
  have hused : (s.slot i).status ≠ .unused := by
    rw [hcreating]
    exact nofun
  have hslot := count_setSlot (s := s) hi ((s.slot i).setStatus .idle) e
  have hcount : ((s.slot i).setStatus .idle).count e = (s.slot i).count e :=
    (StationSlot.count_of_used (show StationStatus.idle ≠ .unused from nofun) e).trans
      (StationSlot.count_of_used hused e).symm
  have hthreads : ∑ u ∈ Finset.range (s.threads + 1), ((s.addThread i).thread u).events.count e =
      ∑ u ∈ Finset.range s.threads, (s.thread u).events.count e := by
    have hnew : (s.addThread i).thread s.threads = ⟨i, .loop, [], (s.slot i).station, none⟩ :=
      Function.update_self ..
    rw [Finset.sum_range_succ, hnew, List.count_nil, Nat.add_zero]
    refine Finset.sum_congr rfl fun u hu => ?_
    have hsame : (s.addThread i).thread u = s.thread u :=
      Function.update_of_ne (Nat.ne_of_lt (Finset.mem_range.mp hu)) ..
    rw [hsame]
  unfold count at hslot ⊢
  change _ + ∑ j ∈ Finset.range n, ((s.setSlot i ((s.slot i).setStatus .idle)).slot j).count e +
    ∑ u ∈ Finset.range (s.threads + 1), ((s.addThread i).thread u).events.count e = _
  change s.clients.count e + _ + ∑ u ∈ Finset.range s.threads, (s.thread u).events.count e + _ = _
    at hslot
  change s.clients.count e + _ + _ = _
  omega

/-- A station without events ceases to be. -/
theorem count_endCall {i : ℕ} {r : StationSlot} (hi : i < n) (hr : r.status = .unused)
    (hin : (s.slot i).listIn = []) (hout : (s.slot i).listOut = []) (e : ℕ) :
    (s.setSlot i r).count n e = s.count n e := by
  have hslot := count_setSlot (s := s) hi r e
  have hnew : r.count e = 0 := if_pos hr
  have hold : (s.slot i).count e = 0 := by
    unfold StationSlot.count
    rw [hin, hout, List.count_nil, Nat.add_zero, ite_self]
  omega

/-- The last attachment leaves, and the events of the input list are put into an output list. -/
theorem count_flush {i list woken : ℕ} (hi : i < n) (hactive : (s.slot i).status = .active)
    (hlist : list < n) (hexists : (s.slot list).Exists)
    (hstep : (s.setSlot i (s.slot i).detachLast).flush list woken (s.slot i).listIn = some t)
    (e : ℕ) : t.count n e = s.count n e := by
  have hhere : (s.slot i).status ≠ .unused := by
    rw [hactive]
    exact nofun
  have hslot := count_setSlot (s := s) hi (s.slot i).detachLast e
  have hold := StationSlot.count_of_used hhere e
  have hnew : (s.slot i).detachLast.count e = 0 + (s.slot i).listOut.count e :=
    StationSlot.count_of_used (show StationStatus.idle ≠ .unused from nofun) e
  unfold ConductorState.flush at hstep
  split at hstep
  case isTrue hempty =>
    obtain rfl := Option.some.inj hstep
    rw [hempty, List.count_nil] at hold
    omega
  case isFalse =>
    have hused : ((s.setSlot i (s.slot i).detachLast).slot list).status ≠ .unused := by
      rcases eq_or_ne list i with rfl | hne
      · rw [setSlot_self]
        exact nofun
      · rw [setSlot_of_ne hne]
        rcases hexists with he | he <;> (rw [he]; exact nofun)
    have hput := count_setSlot (s := s.setSlot i (s.slot i).detachLast) hlist
      (((s.setSlot i (s.slot i).detachLast).slot list).setOut
        (((s.setSlot i (s.slot i).detachLast).slot list).listOut ++ (s.slot i).listIn)) e
    rw [StationSlot.count_setOut hused, StationSlot.count_of_used hused, List.count_append] at hput
    rw [count_notify hstep]
    omega

/-- **Orderly steps lose no event, and double none.** -/
theorem Inv.count_step (h : s.Inv n) {a : ConductorAct} (hok : s.Orderly n a)
    (hstep : s.step n a = some t) (e : ℕ) : t.count n e = s.count n e := by
  cases a with
  | create =>
      rw [ConductorState.step, Option.ite_none_right_eq_some] at hstep
      obtain ⟨i, hfree, rfl⟩ := Option.map_eq_some_iff.mp hstep.2
      have hi : i < n := List.mem_range.mp (List.mem_of_find?_eq_some hfree)
      have hunused : (s.slot i).status = .unused := by
        simpa using List.find?_some hfree
      have hslot := count_setSlot (s := s) hi (s.slot i).create e
      have hold : (s.slot i).count e = 0 := if_pos hunused
      have hnew : (s.slot i).create.count e = 0 :=
        StationSlot.count_of_used (show StationStatus.creating ≠ .unused from nofun) e
      change (s.setSlot i (s.slot i).create).count n e = _
      omega
  | start ok =>
      rw [ConductorState.step] at hstep
      split at hstep
      case h_1 i hcall =>
        obtain rfl := Option.some.inj hstep
        obtain ⟨hi, hcreating⟩ := h.call.target i (by rw [hcall]; rfl)
        rw [hcall] at hcreating
        split
        · exact count_addThread hi hcreating e
        · rfl
      case h_2 => cases hstep
  | giveUp =>
      rw [ConductorState.step] at hstep
      split at hstep
      case h_1 i hcall =>
        obtain rfl := Option.some.inj hstep
        obtain ⟨hi, hcreating⟩ := h.call.target i (by rw [hcall]; rfl)
        rw [hcall] at hcreating
        exact count_endCall hi rfl
          ((h.slots i hi).listIn (by rw [hcreating]; exact nofun))
          ((h.slots i hi).listOut (by rintro (he | he) <;> exact absurd (hcreating.symm.trans he) nofun))
          e
      case h_2 => cases hstep
  | insert ok =>
      rw [ConductorState.step] at hstep
      split at hstep
      case h_1 => exact Option.some.inj hstep ▸ rfl
      case h_2 => cases hstep
  | remove i =>
      rw [ConductorState.step, Option.ite_none_right_eq_some] at hstep
      exact Option.some.inj hstep.2 ▸ rfl
  | relock =>
      rw [ConductorState.step] at hstep
      split at hstep
      case h_1 => exact Option.some.inj hstep ▸ rfl
      case h_2 => cases hstep
  | mark =>
      have hkill : ∀ i, s.call.target = some i →
          (s.setSlot i (s.slot i).setKill).count n e = s.count n e := fun i hi =>
        Nat.add_right_cancel (count_setSlot (h.call.target i hi).1 (s.slot i).setKill e)
      rw [ConductorState.step] at hstep
      split at hstep
      case h_1 i hcall => exact Option.some.inj hstep ▸ hkill i (by rw [hcall]; rfl)
      case h_2 i hcall => exact Option.some.inj hstep ▸ hkill i (by rw [hcall]; rfl)
      case h_3 => cases hstep
  | signal woken =>
      rw [ConductorState.step] at hstep
      split at hstep
      case h_1 i all hcall =>
        obtain ⟨r, hr, rfl⟩ := Option.map_eq_some_iff.mp hstep
        exact count_notify (n := n) hr e
      case h_2 => cases hstep
  | free =>
      rw [ConductorState.step] at hstep
      split at hstep
      case h_1 i all hcall =>
        obtain rfl := Option.some.inj hstep
        have htarget : s.call.target = some i := by rw [hcall]; rfl
        obtain ⟨hi, hidle⟩ := h.call.target i htarget
        rw [hcall] at hidle
        exact count_endCall hi rfl ((h.slots i hi).listIn (by rw [hidle]; exact nofun))
          (h.call.killing i true htarget (by rw [hcall]; rfl)).listOut e
      case h_2 => cases hstep
  | attach i =>
      rw [ConductorState.step, Option.ite_none_right_eq_some] at hstep
      obtain ⟨⟨-, hi, hexists⟩, hstep⟩ := hstep
      obtain rfl := Option.some.inj hstep
      have hhere : (s.slot i).status ≠ .unused := by
        rcases hexists with he | he <;> (rw [he]; exact nofun)
      have hslot := count_setSlot (s := s) hi (s.slot i).attach e
      have hsame : (s.slot i).attach.count e = (s.slot i).count e :=
        (StationSlot.count_of_used (show StationStatus.active ≠ .unused from nofun) e).trans
          (StationSlot.count_of_used hhere e).symm
      omega
  | detach i list woken =>
      rw [ConductorState.step, Option.ite_none_right_eq_some] at hstep
      obtain ⟨⟨-, hi, hactive, -, hlist, hexists⟩, hstep⟩ := hstep
      split at hstep
      case isTrue => exact count_flush hi hactive hlist hexists hstep e
      case isFalse =>
        obtain rfl := Option.some.inj hstep
        exact Nat.add_right_cancel (count_setSlot hi (s.slot i).detach e)
  | get i count =>
      rw [ConductorState.step, Option.ite_none_right_eq_some] at hstep
      obtain ⟨⟨hi, hactive, -⟩, hstep⟩ := hstep
      obtain rfl := Option.some.inj hstep
      have hhere : (s.slot i).status ≠ .unused := by
        rw [hactive]
        exact nofun
      have hslot := count_setSlot (s := s) hi ((s.slot i).setIn ((s.slot i).listIn.drop count)) e
      have hsplit : (s.slot i).listIn.count e =
          ((s.slot i).listIn.take count).count e + ((s.slot i).listIn.drop count).count e := by
        rw [← List.count_append, List.take_append_drop]
      rw [StationSlot.count_setIn hhere, StationSlot.count_of_used hhere] at hslot
      have hclients := count_setClients (n := n)
        (s.setSlot i ((s.slot i).setIn ((s.slot i).listIn.drop count)))
        (s.clients ++ (s.slot i).listIn.take count) e
      rw [List.count_append] at hclients
      change _ + s.clients.count e = _ at hclients
      omega
  | put i events woken =>
      rw [ConductorState.step, Option.ite_none_right_eq_some] at hstep
      obtain ⟨⟨hi, hactive, -, hsub⟩, hstep⟩ := hstep
      have hhere : (s.slot i).status ≠ .unused := by
        rw [hactive]
        exact nofun
      have hslot := count_setSlot (s := s) hi ((s.slot i).setOut ((s.slot i).listOut ++ events)) e
      have hclients := count_setClients (n := n)
        (s.setSlot i ((s.slot i).setOut ((s.slot i).listOut ++ events))) (s.clients.diff events) e
      have hle := hsub.count_le e
      rw [StationSlot.count_setOut hhere, StationSlot.count_of_used hhere, List.count_append] at hslot
      rw [List.count_diff] at hclients
      change _ + s.clients.count e = _ at hclients
      rw [count_notify hstep]
      omega
  | test u =>
      rw [ConductorState.step, Option.ite_none_right_eq_some] at hstep
      obtain ⟨⟨hu, hpc⟩, hstep⟩ := hstep
      obtain rfl := Option.some.inj hstep
      refine count_readOrWait h hu (by rw [hpc]; exact nofun) ?_ e
      exact h.exists_of_busy hu (by rw [hpc]; exact nofun) (by rw [hpc]; exact nofun)
  | wake u =>
      rw [ConductorState.step, Option.ite_none_right_eq_some] at hstep
      obtain ⟨⟨hu, hpc⟩, hstep⟩ := hstep
      obtain rfl := Option.some.inj hstep
      unfold ConductorState.resume
      split
      case isTrue => exact Nat.add_right_cancel (count_setThread hu _ e)
      case isFalse hkill =>
        refine count_readOrWait h hu ?_ (h.exists_of_woken hu hpc hkill) e
        rcases hpc with hpc | hpc <;> (rw [hpc]; exact nofun)
  | conduct u places =>
      rw [ConductorState.step, Option.ite_none_right_eq_some] at hstep
      obtain ⟨⟨hu, -, -, hlength, hplaces⟩, hstep⟩ := hstep
      obtain rfl := Option.some.inj hstep
      obtain ⟨hthread, hthreads, -⟩ := deliver_frame (s.thread u).events places s
      have hlists := count_deliver hlength hplaces e
      have hhand := count_setThread (n := n) (s := ConductorState.deliver (s.thread u).events places s)
        (hthreads.symm ▸ hu) (s.thread u).dropBatch e
      rw [hthread] at hhand
      change _ + _ = _ + 0 at hhand
      omega

/-! ### Whole runs -/

theorem Inv.faithful (h : s.Inv n) (hcount : ∀ e < nevents, s.count n e = 1) :
    s.Faithful n nevents := by
  refine ⟨fun i hi => (h.slots i hi).served, fun u hu hgone => ?_,
    fun u hu => (h.threads u hu).read, hcount⟩
  by_cases hexited : (s.thread u).pc = .exited
  · exact .inl hexited
  · have hslot := h.slots _ (h.threads u hu).slot
    have hserves : s.Serves u (s.thread u).slot := ⟨hu, hexited, rfl⟩
    rcases hgone with hother | hunused
    · exact absurd (hslot.station u hserves) hother
    · exact .inr (hslot.unused hunused u hserves)

theorem inv_start (h : (conductors n nevents).start s) : s.Inv n := by
  obtain ⟨⟨hgc, hn, hslots⟩, ⟨hthread, hthreads⟩, hcall, -, -⟩ := h
  have hzero : ∀ u, u < s.threads → u = 0 := by
    intro u hu
    omega
  refine ⟨fun i hi => ?_, fun u hu => ?_, ⟨fun i hi => ?_, fun i signalled hi => ?_⟩⟩
  · rcases eq_or_ne i 0 with rfl | hne
    · refine ⟨fun _ => ⟨0, ⟨by omega, by rw [hthread]; exact nofun, by rw [hthread]⟩,
        fun u hu => hzero u hu.1⟩, fun u hu => ?_, ?_, ?_, ?_, fun _ => ?_, fun hne => absurd rfl hne⟩
      · rw [hzero u hu.1, hthread, hgc]
      · rw [hgc]
        exact nofun
      · rw [hgc]
        exact nofun
      · rw [hgc]
        exact fun hne => absurd rfl hne
      · rw [hgc]
    · have hnone : ∀ u, ¬ s.Serves u i := by
        rintro u ⟨hu, -, hi⟩
        rw [hzero u hu, hthread] at hi
        exact hne hi.symm
      refine ⟨?_, fun u hu => absurd hu (hnone u), ?_, fun _ u hu => absurd hu (hnone u),
        fun _ => ?_, fun _ => ?_, ?_⟩
      · rw [hslots i hne]
        rintro (he | he) <;> cases he
      · rw [hslots i hne]
        exact nofun
      · rw [hslots i hne]
      · rw [hslots i hne]
      · rw [hslots i hne]
        exact nofun
  · rw [hzero u hu, hthread]
    exact ⟨hn, fun _ => rfl, nofun⟩
  · rw [hcall] at hi
    cases hi
  · rw [hcall] at hi
    cases hi

theorem count_start (h : (conductors n nevents).start s) {e : ℕ} (he : e < nevents) :
    s.count n e = 1 := by
  obtain ⟨⟨hgc, hn, hslots⟩, ⟨hthread, hthreads⟩, -, -, hclients⟩ := h
  have hlists : ∑ i ∈ Finset.range n, (s.slot i).count e = 1 := by
    rw [Finset.sum_eq_single_of_mem 0 (Finset.mem_range.mpr hn), hgc]
    · change (List.range nevents).count e + List.count e [] = 1
      rw [List.count_nil, List.count_eq_one_of_mem List.nodup_range (List.mem_range.mpr he)]
    · intro i _ hne
      rw [hslots i hne]
      rfl
  unfold count
  rw [hclients, hlists, hthreads, Finset.sum_range_one, hthread]
  rfl

end ConductorState

/-- **One conductor per station, and no event lost**, in every run whose steps are orderly. -/
theorem conductors_faithful (n nevents : ℕ) {s : ConductorState}
    (run : (conductors n nevents).Reach (ConductorState.Orderly n) s) : s.Faithful n nevents := by
  have hinv : s.Inv n ∧ ∀ e < nevents, s.count n e = 1 := by
    apply run.invariant
    · exact fun s h => ⟨ConductorState.inv_start h, fun e => ConductorState.count_start h⟩
    · rintro s a t ⟨h, hcount⟩ hok hstep
      exact ⟨h.step hok hstep, fun e he => (h.count_step hok hstep e).trans (hcount e he)⟩
  exact hinv.1.faithful hinv.2

/-- An ET system with one event. -/
def newSystem : ConductorState where
  slot i := if i = 0 then ⟨.active, 0, false, [0], [], 1⟩ else ⟨.unused, 0, false, [], [], 0⟩
  thread _ := ⟨0, .loop, [], 1, none⟩
  threads := 1
  call := .none
  nstations := 1
  clients := []

theorem newSystem_start (n : ℕ) : (conductors (n + 1) 1).start newSystem :=
  ⟨⟨rfl, n.succ_pos, fun _ hi => if_neg hi⟩, ⟨rfl, rfl⟩, rfl, rfl, rfl⟩

/-- A station is created and removed, and another one is created in its slot. -/
theorem conductors_faithful_example :
    ∃ s, (conductors 2 1).Reach (ConductorState.Orderly 2) s ∧
      (s.slot 1).station = 2 ∧ s.Serves 2 1 ∧ s.Faithful 2 1 := by
  have hrun : ((Machine.runActs (ConductorState.step 2) (ConductorState.Orderly 2)
      [.create, .start true, .insert true, .test 1, .attach 1, .get 0 1, .put 1 [0] 1, .wake 1,
        .detach 1 1 0, .remove 1, .conduct 1 [0], .test 1, .relock, .mark, .signal 1, .free, .wake 1,
        .create, .start true, .insert true] newSystem).map
      fun s => (decide ((s.slot 1).station = 2 ∧ s.Serves 2 1))) = some true := by decide
  obtain ⟨s, hs, hend⟩ := Option.map_eq_some_iff.mp hrun
  have run : (conductors 2 1).Reach (ConductorState.Orderly 2) s :=
    Machine.reach_of_runActs (.start (newSystem_start 1)) hs
  obtain ⟨hstation, hserves⟩ := of_decide_eq_true hend
  exact ⟨s, run, hstation, hserves, conductors_faithful 2 1 run⟩

/-- **Two conductors for one station, and a lost event.**  The first conductor has been woken for
an event, and has not come back from its wait when its station is removed: it finds the mark and
ends, and the event is gone when the slot is used again.  The insertion of the second station
fails before its conductor waits: the signal is lost, the mark is taken back when the slot is
used for the third station, and two conductors serve that. -/
theorem conductors_not_faithful :
    ∃ s, (conductors 2 1).Reach (fun _ _ => True) s ∧
      (s.slot 1).status = .idle ∧ s.Serves 2 1 ∧ s.Serves 3 1 ∧ s.count 2 0 = 0 ∧
        ¬ s.Faithful 2 1 := by
  have hrun : ((Machine.runActs (ConductorState.step 2) (fun _ _ => True)
      [.create, .start true, .insert true, .test 1, .attach 1, .get 0 1, .put 1 [0] 1,
        .detach 1 1 0, .remove 1, .relock, .mark, .signal 0, .free, .wake 1,
        .create, .start true, .insert false, .mark, .signal 0, .free,
        .create, .start true, .insert true] newSystem).map
      fun s => (decide ((s.slot 1).status = .idle ∧ s.Serves 2 1 ∧ s.Serves 3 1 ∧
        s.count 2 0 = 0))) = some true := by decide
  obtain ⟨s, hs, hend⟩ := Option.map_eq_some_iff.mp hrun
  obtain ⟨hidle, htwo, hthree, hlost⟩ := of_decide_eq_true hend
  refine ⟨s, Machine.reach_of_runActs (.start (newSystem_start 1)) hs, hidle, htwo, hthree, hlost,
    fun h => ?_⟩
  obtain ⟨u, -, honly⟩ := h.served 1 (by decide) (.inl hidle)
  exact absurd ((honly 2 htwo).trans (honly 3 hthree).symm) (by decide)

end EventTransfer
