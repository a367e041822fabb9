import EventTransfer.JavaEventList
import EventTransfer.WakeUp

/-!
# Wake-ups of waiting reads in the Java system

A client's thread in the server handles one request after another, so that an attachment's
reads and `netWakeAtt` for it are never handled at the same time: that wake-up comes before,
between or after the requests of a read, and sets the flag `wakeUp` of the attachment in any
case.  `netWakeAll` comes from any client.  Under the station lock it looks for the station in
the list of stations, where only the first member of a parallel group is, sets `wakeUp` of all
its attachments one by one, and calls `wakeUpAll` of its input list, which sets `wakeAll` if
somebody waits.  A read tests `wakeUp` when a request for a timed read comes in, and both
flags after each wait; it clears the flags it finds, `wakeAll` when nobody else waits.

The steps are those of `EventTransfer.JavaEventList`: one stay in a list's monitor is one step.
A wait may end at any time, by its time limit or because events come, so that a notification
is recorded only to tell which readers a wake-up reached.

A flag set while there is no read stays for the next one, and so does one that a read leaves
behind which ends with events; and who begins to wait while `wakeAll` is set is woken too.
`JavaWakeUps.Timely` excludes these cases, and wake-ups of stations that are not found.
-/

namespace EventTransfer

open StepRun Tally

/-- **How a read reaches the server**: by one request in the mode `async`; by timed requests,
repeated forever (`none`) or as often as given; or by one request in the mode `sleep`, for
which the server repeats timed reads of the list. -/
inductive JavaRequest
  | async
  | timed (iterations : Option ℕ)
  | sleep
  deriving DecidableEq, Repr

/-- **How far a read is.**  In `request` the server is about to test `wakeUp`, in `get` it is
about to enter the list's monitor.  In `between` the client has yet to repeat its request; in
the mode `sleep` the server looks whether the client is still there.  In `clear` the server has
the events for a request in that mode, and is about to clear `wakeUp`. -/
inductive JavaReadPc
  | idle
  | request
  | get
  | waiting (notified : Bool)
  | between
  | clear
  deriving DecidableEq, Repr

/-- An attachment: its flags `wakeUp` and `waiting`, and its read.

The last three fields record history and are read by no step: whether a wake-up was made for
the attachment during the present read, whether its station was woken while the read waited on
that station's list, and what the last read returned, with whether a wake-up was made for
it. -/
structure JavaAttachment where
  wakeUp : Bool
  waiting : Bool
  request : JavaRequest
  call : JavaGet
  list : ℕ
  pc : JavaReadPc
  found : Bool
  called : Bool
  last : Option (ReadResult × Bool)
  deriving DecidableEq, Repr

/-- A list: its events, and the fields `wakeAll` and `waitingCount`. -/
structure JavaWakeList where
  events : List ℕ
  wakeAll : Bool
  waitingCount : ℕ
  deriving DecidableEq, Repr

namespace JavaAttachment

variable (r : JavaAttachment)

/-- The read waits. -/
def Waits : Prop := r.pc = .waiting false ∨ r.pc = .waiting true

instance : Decidable r.Waits := inferInstanceAs (Decidable (_ ∨ _))

/-- The read waits on list `l`. -/
def WaitsOn (l : ℕ) : Prop := r.Waits ∧ r.list = l

instance (l : ℕ) : Decidable (r.WaitsOn l) := inferInstanceAs (Decidable (_ ∧ _))

/-- A request of the read is being handled by the thread of its client. -/
def Served : Prop :=
  match r.pc with
  | .idle => False
  | .between => r.request = .sleep
  | .request | .get | .waiting _ | .clear => True

instance : Decidable r.Served := by
  unfold Served
  split <;> infer_instance

/-- A read begins. -/
def start (request : JavaRequest) (call : JavaGet) (list : ℕ) : JavaAttachment :=
  { r with
    request := request
    call := call
    list := list
    pc := if request = .async then .get else .request
    found := false
    called := false }

/-- The read returns. -/
def leave (result : ReadResult) : JavaAttachment :=
  { r with pc := .idle, last := some (result, r.found) }

/-- The request has been handled.  Where the time is over the client repeats it, and in the
mode `sleep` the server does. -/
def finish (result : ReadResult) : JavaAttachment :=
  match r.request, result with
  | .timed none, .timeout => { r with pc := .between }
  | .timed (some (n + 1)), .timeout => { r with pc := .between, request := .timed (some n) }
  | .sleep, .timeout => { r with pc := .between }
  | .sleep, .ok => { r with pc := .clear }
  | _, result => r.leave result

/-- The test of `wakeUp` when a request comes in. -/
def test : JavaAttachment :=
  if r.wakeUp then { r with wakeUp := false }.finish .wakeup else { r with pc := .get }

/-- A wake-up sets the flag `wakeUp`. -/
def mark : JavaAttachment :=
  { r with wakeUp := true, found := r.found || r.pc != .idle }

end JavaAttachment

namespace JavaWakeList

variable (hdr : ℕ → EventHeader) (l : JavaWakeList) (r : JavaAttachment)

/-- The loop of `get` goes round: events are taken; or, where there are none to take, the read
waits or, if its time is over, ends. -/
def loop (timeOver : Bool) : JavaAttachment × JavaWakeList :=
  let out := r.call.attempt hdr l.events
  if out.2.pc = .idle then (r.finish .ok, { l with events := out.1 })
  else if timeOver then ({ r with call := out.2.call }.finish .timeout, l)
  else ({ r with call := out.2.call, waiting := true, pc := .waiting false },
    { l with waitingCount := l.waitingCount + 1 })

/-- `get` in the mode `async`; the one for a group never finds an event. -/
def getAsync : JavaAttachment × JavaWakeList :=
  match r.call with
  | .get _ =>
      if l.events = [] then (r.finish .empty, l)
      else (r.finish .ok, { l with events := (r.call.attempt hdr l.events).1 })
  | .getGroup _ _ => (r.finish .empty, l)

/-- **`get`**, up to its first wait. -/
def get (timeOver : Bool) : JavaAttachment × JavaWakeList :=
  if r.request = .async then l.getAsync hdr r else l.loop hdr r timeOver

/-- **A wait is over.**  If the reader has been woken it leaves, and the last one to do so
clears `wakeAll`; otherwise the loop goes on. -/
def resume (timeOver : Bool) : JavaAttachment × JavaWakeList :=
  let l' := { l with waitingCount := l.waitingCount - 1 }
  if r.wakeUp || l.wakeAll then
    ({ r with wakeUp := false, waiting := false }.finish .wakeup,
      { l' with wakeAll := if l.waitingCount - 1 < 1 then false else l.wakeAll })
  else l'.loop hdr { r with waiting := false } timeOver

end JavaWakeList

/-- The stations: the list of stations as `getStations` returns it, where each group is
represented by its first member; the station and the connection of each attachment; and the
attachments of each station. -/
structure JavaStations (ι : Type) where
  stations : List ℕ
  station : ι → ℕ
  client : ι → ℕ
  attachments : ℕ → List ι

/-- Attachments and input lists (number `0` is GRAND_CENTRAL's), and the thread that handles a
`netWakeAll` and has the station lock: its station, and the attachments it has yet to mark. -/
structure JavaWakeState (ι : Type) where
  att : ι → JavaAttachment
  list : ℕ → JavaWakeList
  waker : Option (ℕ × List ι)

/-- The steps.  `change` stands for what other threads do with the events of a list. -/
inductive JavaWakeAct (ι : Type)
  | start (a : ι) (request : JavaRequest) (call : JavaGet) (list : ℕ)
  | again (a : ι)
  | test (a : ι)
  | get (a : ι) (timeOver : Bool)
  | resume (a : ι) (timeOver : Bool)
  | clear (a : ι)
  | refuse (a : ι)
  | disconnect (a : ι)
  | change (l : ℕ) (events : List ℕ)
  | netWakeAtt (a : ι)
  | netWakeAll (station : ℕ)
  | wakerGo
  deriving DecidableEq, Repr

namespace JavaWakeState

variable {ι : Type} [Fintype ι] [DecidableEq ι]
  (hdr : ℕ → EventHeader) (table : JavaStations ι) (s : JavaWakeState ι)

def setAtt (a : ι) (r : JavaAttachment) : JavaWakeState ι :=
  { s with att := Function.update s.att a r }

/-- Attachment `a` and the list it reads after one of its steps. -/
def setRead (a : ι) (r : JavaAttachment × JavaWakeList) : JavaWakeState ι :=
  { s with
    att := Function.update s.att a r.1
    list := Function.update s.list (s.att a).list r.2 }

/-- The thread of the client that `a` belongs to waits for a request. -/
def Ready (a : ι) : Prop := ∀ b, table.client b = table.client a → ¬ (s.att b).Served

instance (a : ι) : Decidable (s.Ready table a) := inferInstanceAs (Decidable (∀ _, _))

/-- `notifyAll` of a list. -/
def notifyAll (l : ℕ) : JavaWakeState ι :=
  { s with att := fun a =>
      if (s.att a).WaitsOn l then { s.att a with pc := .waiting true } else s.att a }

/-- **`wakeUp`** of the list of the attachment's station. -/
def wakeUp (a : ι) : JavaWakeState ι :=
  if (s.att a).waiting then (s.setAtt a (s.att a).mark).notifyAll (table.station a) else s

/-- **`wakeUpAll`** of a list. -/
def wakeUpAll (l : ℕ) : JavaWakeState ι :=
  if (s.list l).waitingCount < 1 then s
  else
    { s.notifyAll l with list := Function.update s.list l { s.list l with wakeAll := true } }

/-- It is recorded that a station was woken, for those that wait on its list. -/
def call (station : ℕ) : JavaWakeState ι :=
  { s with att := fun a =>
      if (s.att a).WaitsOn station then { s.att a with found := true, called := true }
      else s.att a }

/-- **The steps**; `none` when a step is not possible. -/
def step (s : JavaWakeState ι) : JavaWakeAct ι → Option (JavaWakeState ι)
  | .start a request call list =>
      if (s.att a).pc = .idle ∧ s.Ready table a ∧ (list = table.station a ∨ list = 0) then
        some (s.setAtt a ((s.att a).start request call list))
      else none
  | .again a =>
      if (s.att a).pc = .between ∧ ((s.att a).request = .sleep ∨ s.Ready table a) then
        some (s.setAtt a { s.att a with pc := .request })
      else none
  | .test a => if (s.att a).pc = .request then some (s.setAtt a (s.att a).test) else none
  | .get a timeOver =>
      if (s.att a).pc = .get then
        some (s.setRead a ((s.list (s.att a).list).get hdr (s.att a) timeOver))
      else none
  | .resume a timeOver =>
      if (s.att a).Waits then
        some (s.setRead a ((s.list (s.att a).list).resume hdr (s.att a) timeOver))
      else none
  | .clear a =>
      if (s.att a).pc = .clear then some (s.setAtt a ({ s.att a with wakeUp := false }.leave .ok))
      else none
  -- the group number is too high
  | .refuse a => if (s.att a).pc = .get then some (s.setAtt a ((s.att a).leave .error)) else none
  -- the client is gone, or sends something
  | .disconnect a =>
      if (s.att a).pc = .between ∧ (s.att a).request = .sleep then
        some (s.setAtt a ((s.att a).leave .error))
      else none
  | .change l events =>
      some { s with list := Function.update s.list l { s.list l with events := events } }
  | .netWakeAtt a =>
      let t := s.wakeUp table a
      if s.Ready table a then some (t.setAtt a (t.att a).mark) else none
  | .netWakeAll station =>
      if s.waker = none then
        if station ∈ table.stations then
          some { s with waker := some (station, table.attachments station) }
        else some (s.call station)
      else none
  | .wakerGo =>
      match s.waker with
      | none => none
      | some (station, []) => some { (s.wakeUpAll station).call station with waker := none }
      | some (station, a :: rest) =>
          some { s.setAtt a (s.att a).mark with waker := some (station, rest) }

end JavaWakeState

/-- The transition system.  At the start nobody reads, and no flag is set. -/
def javaWakeUps {ι : Type} [Fintype ι] [DecidableEq ι] (hdr : ℕ → EventHeader)
    (table : JavaStations ι) : Machine (JavaWakeState ι) (JavaWakeAct ι) :=
  .ofStep (fun s => (∀ a, (s.att a).pc = .idle ∧ (s.att a).wakeUp = false ∧
      (s.att a).waiting = false ∧ (s.att a).called = false ∧ (s.att a).last = none) ∧
    (∀ l, (s.list l).wakeAll = false ∧ (s.list l).waitingCount = 0) ∧ s.waker = none)
    (fun s a => s.step hdr table a)

/-! ### Timely runs -/

namespace JavaAttachment

variable (r : JavaAttachment) (hdr : ℕ → EventHeader)

/-- The loop of `get` leaves no mark behind, and no reader waits that `wakeAll` is not meant
for. -/
def TimelyLoop (l : JavaWakeList) (timeOver : Bool) : Prop :=
  if (r.call.attempt hdr l.events).2.pc = .idle then r.request = .sleep ∨ r.wakeUp = false
  else if timeOver then r.request = .timed (some 0) → r.wakeUp = false
  else l.wakeAll = true → r.found = true

instance (l : JavaWakeList) (timeOver : Bool) : Decidable (r.TimelyLoop hdr l timeOver) := by
  unfold TimelyLoop
  infer_instance

/-- And so does `get`. -/
def Timely (l : JavaWakeList) (timeOver : Bool) : Prop :=
  if r.request = .async then r.wakeUp = false else r.TimelyLoop hdr l timeOver

instance (l : JavaWakeList) (timeOver : Bool) : Decidable (r.Timely hdr l timeOver) := by
  unfold Timely
  infer_instance

end JavaAttachment

namespace JavaWakeState

variable {ι : Type} [Fintype ι] [DecidableEq ι] (hdr : ℕ → EventHeader) (table : JavaStations ι)

/-- The attachment that is to be marked next reads. -/
def WakerTimely (s : JavaWakeState ι) : Option (ℕ × List ι) → Prop
  | some (_, a :: _) => (s.att a).pc ≠ .idle
  | some (_, []) | none => True

instance (s : JavaWakeState ι) : (next : Option (ℕ × List ι)) → Decidable (s.WakerTimely next)
  | some (_, a :: _) => inferInstanceAs (Decidable ((s.att a).pc ≠ .idle))
  | some (_, []) | none => isTrue trivial

/-- **Timely steps.**  A wake-up marks attachments only while they read; a station is found, or
nobody waits on its list; a read that is marked does not end with events, by its time limit or
with an error; and who begins to wait while `wakeAll` is set has been found too. -/
def Timely (s : JavaWakeState ι) : JavaWakeAct ι → Prop
  | .get a timeOver => (s.att a).Timely hdr (s.list (s.att a).list) timeOver
  | .refuse a | .disconnect a => (s.att a).wakeUp = false
  | .netWakeAtt a => (s.att a).pc ≠ .idle
  | .netWakeAll station => station ∈ table.stations ∨ ∀ a, ¬ (s.att a).WaitsOn station
  | .wakerGo => s.WakerTimely s.waker
  | _ => True

instance (s : JavaWakeState ι) : (act : JavaWakeAct ι) → Decidable (s.Timely hdr table act)
  | .get a timeOver => inferInstanceAs (Decidable
      ((s.att a).Timely hdr (s.list (s.att a).list) timeOver))
  | .refuse a | .disconnect a => inferInstanceAs (Decidable ((s.att a).wakeUp = false))
  | .netWakeAtt a => inferInstanceAs (Decidable ((s.att a).pc ≠ .idle))
  | .netWakeAll station => inferInstanceAs (Decidable
      (station ∈ table.stations ∨ ∀ a, ¬ (s.att a).WaitsOn station))
  | .wakerGo => inferInstanceAs (Decidable (s.WakerTimely s.waker))
  | .start .. | .again _ | .test _ | .resume .. | .clear _ | .change .. => isTrue trivial

/-- **Wake-ups are exact.**  A read ends with `EtWakeUpException` only if a wake-up was made
for it while it was in progress.  Who waits on the list of a station when that is woken is
notified, and its read ends with `EtWakeUpException`.  A mark belongs to a read in progress:
`wakeUp` to that of its attachment, and `wakeAll` to one that waits on the list. -/
structure Exact (s : JavaWakeState ι) : Prop where
  only_found : ∀ a found, (s.att a).last = some (.wakeup, found) → found = true
  reached : ∀ a, (s.att a).called = true →
    (s.att a).pc = .waiting true ∨
      (s.att a).pc = .idle ∧ (s.att a).last = some (.wakeup, true)
  wakeUp : ∀ a, (s.att a).wakeUp = true → (s.att a).found = true ∧ (s.att a).pc ≠ .idle
  wakeAll : ∀ l, (s.list l).wakeAll = true →
    ∃ a, (s.att a).WaitsOn l ∧ (s.att a).found = true

end JavaWakeState

/-! ### One read -/

namespace JavaAttachment

variable {hdr : ℕ → EventHeader} {r : JavaAttachment} {l : JavaWakeList}

/-- **The invariant of one attachment.** -/
structure Tidy (r : JavaAttachment) : Prop where
  wakeUp : r.wakeUp = true → r.found = true ∧ r.pc ≠ .idle
  waiting : r.waiting = true → r.Waits
  only_found : ∀ found, r.last = some (.wakeup, found) → found = true

/-- A read whose station has been woken while it waited is still waiting, or has been
woken. -/
def Answered (r : JavaAttachment) (wakeAll : Bool) : Prop :=
  r.called = true →
    r.pc = .waiting true ∧ wakeAll = true ∨ r.pc = .idle ∧ r.last = some (.wakeup, true)

/-- Add one for a read that waits on list `l`. -/
def counts (l : ℕ) (r : JavaAttachment) : ℕ := if r.WaitsOn l then 1 else 0

/-- **A step of a read**, with its list. -/
structure Moves (r : JavaAttachment) (l : JavaWakeList) (q : JavaAttachment × JavaWakeList) :
    Prop where
  tidy : q.1.Tidy
  list : q.1.list = r.list
  answered : q.1.Answered q.2.wakeAll
  counted : q.2.waitingCount + r.counts r.list = l.waitingCount + q.1.counts r.list
  wakeAll : q.2.wakeAll = true →
    l.wakeAll = true ∧ 0 < q.2.waitingCount ∧ (q.1.Waits → q.1.found = true)
  cleared : q.2.wakeAll = false → l.wakeAll = true → q.2.waitingCount = 0

@[simp]
theorem finish_list (result : ReadResult) : (r.finish result).list = r.list := by
  unfold finish
  split <;> rfl

@[simp]
theorem finish_found (result : ReadResult) : (r.finish result).found = r.found := by
  unfold finish
  split <;> rfl

@[simp]
theorem finish_called (result : ReadResult) : (r.finish result).called = r.called := by
  unfold finish
  split <;> rfl

@[simp]
theorem finish_wakeUp (result : ReadResult) : (r.finish result).wakeUp = r.wakeUp := by
  unfold finish
  split <;> rfl

@[simp]
theorem finish_waiting (result : ReadResult) : (r.finish result).waiting = r.waiting := by
  unfold finish
  split <;> rfl

theorem finish_last (result : ReadResult) :
    (r.finish result).last = r.last ∨ (r.finish result).last = some (result, r.found) := by
  unfold finish
  split
  case h_5 => exact .inr rfl
  all_goals exact .inl rfl

theorem not_waits_finish (result : ReadResult) : ¬ (r.finish result).Waits := by
  unfold finish
  split
  all_goals rintro (h | h) <;> cases h

/-- A read that is woken is not repeated. -/
theorem finish_wakeup : r.finish .wakeup = r.leave .wakeup := by
  unfold finish
  split <;> first | rfl | contradiction

theorem finish_timeout_ne_idle (hasync : r.request ≠ .async)
    (hlast : r.request ≠ .timed (some 0)) : (r.finish .timeout).pc ≠ .idle := by
  unfold finish
  cases hrequest : r.request with
  | async => exact absurd hrequest hasync
  | timed iterations =>
      cases iterations with
      | none => exact nofun
      | some n =>
          cases n with
          | zero => exact absurd hrequest hlast
          | succ n => exact nofun
  | sleep => exact nofun

theorem finish_ok_ne_idle (h : r.request = .sleep) : (r.finish .ok).pc ≠ .idle := by
  unfold finish
  rw [h]
  exact nofun

theorem counts_of_not_waits (h : ¬ r.Waits) (n : ℕ) : r.counts n = 0 := if_neg fun hw => h hw.1

theorem counts_of_waits (h : r.Waits) : r.counts r.list = 1 := if_pos ⟨h, rfl⟩

/-- A read returns. -/
theorem tidy_leave (hmark : r.wakeUp = false) (hwaiting : r.waiting = false)
    (result : ReadResult) (hwoken : result = .wakeup → r.found = true) : (r.leave result).Tidy := by
  refine ⟨fun hw => absurd (hmark.symm.trans hw) nofun,
    fun hw => absurd (hwaiting.symm.trans hw) nofun, fun found hlast => ?_⟩
  obtain ⟨rfl, rfl⟩ := Prod.mk.inj (Option.some.inj hlast)
  exact hwoken rfl

/-- A request has been handled.  A mark stays only in a read that goes on. -/
theorem Tidy.finish (h : r.Tidy) (hwaiting : r.waiting = false) {result : ReadResult}
    (hmark : r.wakeUp = true → (r.finish result).pc ≠ .idle)
    (hwoken : result = .wakeup → r.found = true) : (r.finish result).Tidy := by
  refine ⟨fun hw => ?_, fun hw => ?_, fun found hlast => ?_⟩
  · rw [finish_wakeUp] at hw
    exact ⟨(finish_found result).trans (h.wakeUp hw).1, hmark hw⟩
  · rw [finish_waiting, hwaiting] at hw
    cases hw
  · rcases finish_last result with hold | hnew
    · exact h.only_found found (hold.symm.trans hlast)
    · obtain ⟨rfl, rfl⟩ := Prod.mk.inj (Option.some.inj (hnew.symm.trans hlast))
      exact hwoken rfl

/-- A read that did not wait on its list, and does not wait afterwards, with nothing done to
the flag or the count. -/
theorem Tidy.moves_finish (hr : r.Tidy) (result : ReadResult) (hwaiting : r.waiting = false) {r₀ : JavaAttachment}
    {l₀ : JavaWakeList} (hlist : r.list = r₀.list) (hcalled : r.called = false)
    (hcount : l.waitingCount + r₀.counts r₀.list = l₀.waitingCount)
    (hwake : l.wakeAll = l₀.wakeAll) (halive : l.wakeAll = true → 0 < l.waitingCount)
    (hmark : r.wakeUp = true → (r.finish result).pc ≠ .idle)
    (hwoken : result = .wakeup → r.found = true) (events : List ℕ) :
    r₀.Moves l₀ (r.finish result, { l with events := events }) := by
  refine ⟨hr.finish hwaiting hmark hwoken, (finish_list result).trans hlist, fun hc => ?_, ?_,
    fun hw => ⟨hwake ▸ hw, halive hw, fun h => absurd h (not_waits_finish result)⟩,
    fun hw hw₀ => ?_⟩
  · rw [finish_called, hcalled] at hc
    cases hc
  · show l.waitingCount + _ = _ + counts _ _
    rw [counts_of_not_waits (not_waits_finish result)]
    exact hcount
  · exact absurd ((hwake.trans hw₀).symm.trans hw) nofun

/-- **The loop of `get`.** -/
theorem Tidy.moves_loop (hr : r.Tidy) (hwaiting : r.waiting = false) {r₀ : JavaAttachment}
    {l₀ : JavaWakeList} (hlist : r.list = r₀.list) (hcalled : r.called = false)
    (hcount : l.waitingCount + r₀.counts r₀.list = l₀.waitingCount)
    (hwake : l.wakeAll = l₀.wakeAll) (halive : l.wakeAll = true → 0 < l.waitingCount)
    {timeOver : Bool}
    (hok : r.wakeUp = true ∨ l.wakeAll = true → r.request ≠ .async ∧ r.TimelyLoop hdr l timeOver) :
    r₀.Moves l₀ (l.loop hdr r timeOver) := by
  unfold JavaWakeList.loop
  unfold TimelyLoop at hok
  dsimp only
  split
  case isTrue hidle =>
    refine hr.moves_finish .ok hwaiting hlist hcalled hcount hwake halive (fun hw => ?_) nofun _
    have hsleep := (hok (.inl hw)).2
    rw [if_pos hidle] at hsleep
    exact finish_ok_ne_idle (hsleep.resolve_right (by simp [hw]))
  case isFalse hidle =>
    split
    case isTrue hover =>
      have hr' : Tidy { r with call := (r.call.attempt hdr l.events).2.call } :=
        ⟨hr.wakeUp, hr.waiting, hr.only_found⟩
      refine hr'.moves_finish .timeout hwaiting hlist hcalled hcount hwake halive (fun hw => ?_) nofun
        l.events
      obtain ⟨hsent, hlast⟩ := hok (.inl hw)
      rw [if_neg hidle, if_pos hover] at hlast
      exact finish_timeout_ne_idle hsent fun h => absurd (hw.symm.trans (hlast h)) nofun
    case isFalse hover =>
      refine ⟨⟨fun hw => ⟨(hr.wakeUp hw).1, nofun⟩, fun _ => .inl rfl, hr.only_found⟩, hlist,
        fun hc => absurd (hcalled.symm.trans hc) nofun, ?_,
        fun hw => ⟨hwake ▸ hw, Nat.succ_pos _, fun _ => ?_⟩,
        fun hw hw₀ => absurd ((hwake.trans hw₀).symm.trans hw) nofun⟩
      · have hone : counts r₀.list
            { r with
              call := (r.call.attempt hdr l.events).2.call
              waiting := true
              pc := .waiting false } = 1 := if_pos ⟨.inl rfl, hlist⟩
        show l.waitingCount + 1 + _ = _
        rw [hone]
        omega
      · have hfound := (hok (.inr hw)).2
        rw [if_neg hidle, if_neg hover] at hfound
        exact hfound hw

/-- A read enters the list's monitor. -/
theorem Tidy.moves_get (hr : r.Tidy) (hpc : r.pc = .get) (hcalled : r.called = false)
    (halive : l.wakeAll = true → 0 < l.waitingCount) {timeOver : Bool}
    (hok : r.Timely hdr l timeOver) : r.Moves l (l.get hdr r timeOver) := by
  have hnot : ¬ r.Waits := by
    rintro (h | h) <;> exact absurd (hpc.symm.trans h) nofun
  have hwaiting : r.waiting = false := by
    rw [← Bool.not_eq_true]
    exact fun hw => hnot (hr.waiting hw)
  have hcount : l.waitingCount + r.counts r.list = l.waitingCount := by
    rw [counts_of_not_waits hnot]
    rfl
  unfold JavaWakeList.get
  unfold Timely at hok
  split at hok
  case isTrue hasync =>
    have hmark : ∀ result, r.wakeUp = true → (r.finish result).pc ≠ .idle :=
      fun _ hw => absurd (hw.symm.trans hok) nofun
    rw [if_pos hasync]
    unfold JavaWakeList.getAsync
    split
    · split
      · exact hr.moves_finish .empty hwaiting rfl hcalled hcount rfl halive (hmark .empty) nofun l.events
      · exact hr.moves_finish .ok hwaiting rfl hcalled hcount rfl halive (hmark .ok) nofun _
    · exact hr.moves_finish .empty hwaiting rfl hcalled hcount rfl halive (hmark .empty) nofun l.events
  case isFalse hsent =>
    rw [if_neg hsent]
    exact hr.moves_loop hwaiting rfl hcalled hcount rfl halive fun _ => ⟨hsent, hok⟩

/-- **A wait is over.** -/
theorem Tidy.moves_resume (hr : r.Tidy) (hpc : r.Waits) (hanswered : r.Answered l.wakeAll)
    (hpos : 1 ≤ l.waitingCount) (hwake : l.wakeAll = true → r.found = true) (timeOver : Bool) :
    r.Moves l (l.resume hdr r timeOver) := by
  have hone := counts_of_waits hpc
  unfold JavaWakeList.resume
  dsimp only
  split
  case isTrue hwoken =>
    have hfound : r.found = true := by
      rcases Bool.or_eq_true_iff.mp hwoken with hw | hw
      · exact (hr.wakeUp hw).1
      · exact hwake hw
    rw [finish_wakeup]
    refine ⟨⟨nofun, nofun, fun found hlast => ?_⟩, rfl, fun _ => .inr ⟨rfl, ?_⟩, ?_,
      fun hw => ?_, fun hw hw₀ => ?_⟩
    · rw [← (Prod.mk.inj (Option.some.inj hlast)).2]
      exact hfound
    · show some (_, r.found) = _
      rw [hfound]
    · show l.waitingCount - 1 + _ = _
      rw [hone, counts_of_not_waits (by rintro (h | h) <;> cases h)]
      omega
    · dsimp only at hw
      split at hw
      · cases hw
      · exact ⟨hw, by dsimp only; omega, by rintro (h | h) <;> cases h⟩
    · dsimp only at hw ⊢
      split at hw
      · omega
      · exact absurd (hw.symm.trans hw₀) nofun
  case isFalse hwoken =>
    obtain ⟨hno, hnoall⟩ := Bool.or_eq_false_iff.mp (Bool.not_eq_true _ ▸ hwoken)
    have hcalled : r.called = false := by
      rw [← Bool.not_eq_true]
      intro hc
      rcases hanswered hc with ⟨-, hall⟩ | ⟨hidle, -⟩
      · exact absurd (hnoall.symm.trans hall) nofun
      · rcases hpc with h | h <;> exact absurd (hidle.symm.trans h) nofun
    have hr' : Tidy { r with waiting := false } :=
      ⟨fun hw => absurd (hno.symm.trans hw) nofun, nofun, hr.only_found⟩
    apply hr'.moves_loop
    · rfl
    · rfl
    · exact hcalled
    · dsimp only
      omega
    · rfl
    · exact fun hw => absurd (hnoall.symm.trans hw) nofun
    · rintro (hw | hw)
      · exact absurd (hno.symm.trans hw) nofun
      · exact absurd (hnoall.symm.trans hw) nofun

end JavaAttachment

/-! ### One step of the system -/

namespace JavaWakeState

variable {ι : Type} [Fintype ι] [DecidableEq ι] {hdr : ℕ → EventHeader} {table : JavaStations ι}
  {s t : JavaWakeState ι}

/-- **The invariant.**  `waitingCount` counts the reads that wait on a list, and while `wakeAll`
is set there are such reads and all of them have been found. -/
structure Inv (s : JavaWakeState ι) : Prop where
  tidy : ∀ a, (s.att a).Tidy
  answered : ∀ a, (s.att a).Answered (s.list (s.att a).list).wakeAll
  counted : ∀ l, (s.list l).waitingCount = tally (JavaAttachment.counts l) s.att
  alive : ∀ l, (s.list l).wakeAll = true → 0 < (s.list l).waitingCount
  waking : ∀ l, (s.list l).wakeAll = true → ∀ a, (s.att a).WaitsOn l → (s.att a).found = true

omit [DecidableEq ι] in
theorem Inv.not_called (h : s.Inv) {a : ι} (hwaits : (s.att a).pc ≠ .waiting true)
    (hidle : (s.att a).pc ≠ .idle) : (s.att a).called = false := by
  rw [← Bool.not_eq_true]
  intro hc
  rcases h.answered a hc with ⟨hpc, -⟩ | ⟨hpc, -⟩
  · exact hwaits hpc
  · exact hidle hpc

/-- A read with its list. -/
theorem Inv.setRead (h : s.Inv) {a : ι} {q : JavaAttachment × JavaWakeList}
    (hq : (s.att a).Moves (s.list (s.att a).list) q) : (s.setRead a q).Inv := by
  set n := (s.att a).list with hn
  have hatt : ∀ b, b ≠ a → (s.setRead a q).att b = s.att b := fun b hb =>
    Function.update_of_ne hb ..
  have hself : (s.setRead a q).att a = q.1 := Function.update_self ..
  have hlist : ∀ l, l ≠ n → (s.setRead a q).list l = s.list l := fun l hl =>
    Function.update_of_ne hl ..
  have hown : (s.setRead a q).list n = q.2 := Function.update_self ..
  have hcounted : ∀ l, ((s.setRead a q).list l).waitingCount =
      tally (JavaAttachment.counts l) (s.setRead a q).att := by
    intro l
    have hup : tally (JavaAttachment.counts l) (s.setRead a q).att + _ = _ :=
      tally_update (JavaAttachment.counts l) s.att a q.1
    have hold := h.counted l
    rcases eq_or_ne l n with rfl | hl
    · have hmove := hq.counted
      rw [← hn] at hmove
      rw [hown]
      omega
    · have hnew : q.1.counts l = 0 := if_neg fun hw => hl (hw.2.symm.trans hq.list)
      have hwas : (s.att a).counts l = 0 := if_neg fun hw => hl hw.2.symm
      rw [hlist l hl]
      omega
  refine ⟨fun b => ?_, fun b => ?_, hcounted, fun l hw => ?_, fun l hw b hb => ?_⟩
  · rcases eq_or_ne b a with rfl | hb
    · exact hself ▸ hq.tidy
    · exact hatt b hb ▸ h.tidy b
  · rcases eq_or_ne b a with rfl | hb
    · rw [hself, hq.list, hown]
      exact hq.answered
    · rw [hatt b hb]
      intro hc
      refine (h.answered b hc).imp_left fun hwait => ⟨hwait.1, ?_⟩
      rcases eq_or_ne (s.att b).list n with hbn | hbn
      · -- if `wakeAll` were cleared, nobody would wait
        rw [hbn, hown]
        by_contra hnot
        have hzero := hq.cleared (by simpa using hnot) (hbn ▸ hwait.2)
        have hone : ((s.setRead a q).att b).counts n = 1 := by
          rw [hatt b hb]
          exact if_pos ⟨.inr hwait.1, hbn⟩
        have hle := le_tally (JavaAttachment.counts n) (s.setRead a q).att b
        rw [← hcounted, hown, hzero, hone] at hle
        omega
      · rw [hlist _ hbn]
        exact hwait.2
  · rcases eq_or_ne l n with rfl | hl
    · rw [hown] at hw ⊢
      exact (hq.wakeAll hw).2.1
    · rw [hlist l hl] at hw ⊢
      exact h.alive l hw
  · rcases eq_or_ne b a with rfl | hb'
    · rw [hself] at hb ⊢
      obtain rfl : l = n := hb.2.symm.trans hq.list
      rw [hown] at hw
      exact (hq.wakeAll hw).2.2 hb.1
    · rw [hatt b hb'] at hb ⊢
      refine h.waking l ?_ b hb
      rcases eq_or_ne l n with rfl | hl
      · rw [hown] at hw
        exact (hq.wakeAll hw).1
      · rwa [hlist l hl] at hw

/-- An attachment changes, and the lists do not. -/
theorem Inv.setAtt (h : s.Inv) {a : ι} {r : JavaAttachment} (htidy : r.Tidy)
    (hanswered : r.Answered (s.list r.list).wakeAll)
    (hwaits : ∀ l, r.WaitsOn l ↔ (s.att a).WaitsOn l)
    (hfound : r.Waits → (s.att a).found = true → r.found = true) : (s.setAtt a r).Inv := by
  refine ⟨fun b => ?_, fun b => ?_, fun l => ?_, h.alive, fun l hw b hb => ?_⟩
  · change (Function.update s.att a r b).Tidy
    rcases eq_or_ne b a with rfl | hb
    · rwa [Function.update_self]
    · rw [Function.update_of_ne hb]
      exact h.tidy b
  · change (Function.update s.att a r b).Answered (s.list (Function.update s.att a r b).list).wakeAll
    rcases eq_or_ne b a with rfl | hb
    · rwa [Function.update_self]
    · rw [Function.update_of_ne hb]
      exact h.answered b
  · refine (h.counted l).trans (Eq.symm (tally_update_of_eq ?_))
    unfold JavaAttachment.counts
    simp only [hwaits l]
  · change (Function.update s.att a r b).WaitsOn l at hb
    change (Function.update s.att a r b).found = true
    rcases eq_or_ne b a with rfl | hba
    · rw [Function.update_self] at hb ⊢
      exact hfound hb.1 (h.waking l hw b ((hwaits l).mp hb))
    · rw [Function.update_of_ne hba] at hb ⊢
      exact h.waking l hw b hb

/-- A read that does not wait, before or after. -/
theorem Inv.setIdle (h : s.Inv) {a : ι} {r : JavaAttachment} (htidy : r.Tidy)
    (hanswered : r.Answered (s.list r.list).wakeAll) (hnot : ¬ r.Waits)
    (hwas : ¬ (s.att a).Waits) : (s.setAtt a r).Inv :=
  h.setAtt htidy hanswered (fun _ => ⟨fun hw => absurd hw.1 hnot, fun hw => absurd hw.1 hwas⟩)
    fun hw => absurd hw hnot

/-- A read that does not wait goes on, or returns. -/
theorem Inv.proceed (h : s.Inv) {a : ι} {r : JavaAttachment} (hidle : (s.att a).pc ≠ .idle)
    (hwas : ¬ (s.att a).Waits) (htidy : (s.att a).waiting = false → r.Tidy)
    (hcalled : r.called = (s.att a).called) (hnot : ¬ r.Waits) : (s.setAtt a r).Inv := by
  have hwaiting : (s.att a).waiting = false := by
    rw [← Bool.not_eq_true]
    exact fun hw => hwas ((h.tidy a).waiting hw)
  refine h.setIdle (htidy hwaiting) (fun hc => ?_) hnot hwas
  exact absurd (hcalled.symm.trans hc) (by simp [h.not_called (fun hpc => hwas (.inr hpc)) hidle])

omit [DecidableEq ι] in
/-- Other threads change the events of a list. -/
theorem Inv.change (h : s.Inv) (l : ℕ) (events : List ℕ) :
    Inv { s with list := Function.update s.list l { s.list l with events := events } } := by
  have hsame : ∀ n, (Function.update s.list l { s.list l with events := events } n).wakeAll =
      (s.list n).wakeAll ∧
      (Function.update s.list l { s.list l with events := events } n).waitingCount =
        (s.list n).waitingCount := by
    intro n
    rcases eq_or_ne n l with rfl | hn
    · rw [Function.update_self]
      exact ⟨rfl, rfl⟩
    · rw [Function.update_of_ne hn]
      exact ⟨rfl, rfl⟩
  refine ⟨h.tidy, fun a => ?_, fun n => (hsame n).2.trans (h.counted n), fun n hw => ?_,
    fun n hw => h.waking n ((hsame n).1.symm.trans hw)⟩
  · show (s.att a).Answered _
    rw [(hsame _).1]
    exact h.answered a
  · show 0 < _
    rw [(hsame n).2]
    exact h.alive n ((hsame n).1.symm.trans hw)

/-- An attachment is marked that reads. -/
theorem Inv.mark (h : s.Inv) {a : ι} (hpc : (s.att a).pc ≠ .idle) :
    (s.setAtt a (s.att a).mark).Inv := by
  refine h.setAtt ⟨fun _ => ⟨?_, hpc⟩, (h.tidy a).waiting, (h.tidy a).only_found⟩ (h.answered a)
    (fun _ => Iff.rfl) fun _ hfound => ?_
  · simp [JavaAttachment.mark, hpc]
  · simp [JavaAttachment.mark, hfound]

omit [Fintype ι] [DecidableEq ι] in
/-- Nobody waits on the list of the station. -/
theorem call_eq_self {l : ℕ} (hnobody : ∀ a, ¬ (s.att a).WaitsOn l) : s.call l = s := by
  have hatt : (s.call l).att = s.att := by
    funext a
    exact if_neg (hnobody a)
  unfold call at hatt ⊢
  rw [show (fun a => _) = s.att from hatt]

omit [DecidableEq ι] in
theorem Inv.nobody (h : s.Inv) {l : ℕ} (hzero : (s.list l).waitingCount = 0) (a : ι) :
    ¬ (s.att a).WaitsOn l := by
  intro hw
  have hle := le_tally (JavaAttachment.counts l) s.att a
  rw [← h.counted l, hzero, JavaAttachment.counts, if_pos hw] at hle
  exact absurd hle (by omega)

omit [Fintype ι] [DecidableEq ι] in
/-- What a wake-up of a station does to those that wait on its list. -/
theorem att_notified (l : ℕ) (a : ι) :
    ((s.notifyAll l).call l).att a =
      if (s.att a).WaitsOn l then
        { s.att a with pc := .waiting true, found := true, called := true }
      else s.att a := by
  unfold call notifyAll
  by_cases hw : (s.att a).WaitsOn l
  · have hw' : JavaAttachment.WaitsOn { s.att a with pc := .waiting true } l := ⟨.inr rfl, hw.2⟩
    simp only [if_pos hw, if_pos hw']
  · simp only [if_neg hw]

omit [DecidableEq ι] in
/-- Whoever waits has been found once `wakeAll` is set. -/
theorem Inv.woken (h : s.Inv) {l : ℕ} (hpos : 0 < (s.list l).waitingCount)
    (hatt : ∀ a, t.att a =
      if (s.att a).WaitsOn l then
        { s.att a with pc := .waiting true, found := true, called := true }
      else s.att a)
    (hlist : ∀ n, t.list n = if n = l then { s.list l with wakeAll := true } else s.list n) :
    t.Inv := by
  have hwaits : ∀ a n, (t.att a).WaitsOn n ↔ (s.att a).WaitsOn n := by
    intro a n
    rw [hatt]
    split
    case isTrue hw => exact ⟨fun h => ⟨hw.1, h.2⟩, fun h => ⟨.inr rfl, h.2⟩⟩
    case isFalse => exact Iff.rfl
  have hcount : ∀ n, (t.list n).waitingCount = (s.list n).waitingCount := by
    intro n
    rw [hlist]
    split
    case isTrue hn => rw [hn]
    case isFalse => rfl
  refine ⟨fun a => ?_, fun a => ?_, fun n => ?_, fun n hw => ?_, fun n hw a ha => ?_⟩
  · rw [hatt]
    split
    · exact ⟨fun _ => ⟨rfl, nofun⟩, fun _ => .inr rfl, (h.tidy a).only_found⟩
    · exact h.tidy a
  · rw [hatt]
    split
    case isTrue hw =>
      refine fun _ => .inl ⟨rfl, ?_⟩
      rw [hlist, if_pos hw.2]
    case isFalse =>
      intro hc
      refine (h.answered a hc).imp_left fun hwait => ⟨hwait.1, ?_⟩
      rw [hlist]
      split
      · rfl
      · exact hwait.2
  · rw [hcount, h.counted n]
    unfold tally JavaAttachment.counts
    simp only [hwaits]
  · rw [hcount]
    rw [hlist] at hw
    split at hw
    case isTrue hn => exact hn ▸ hpos
    case isFalse => exact h.alive n hw
  · rw [hwaits] at ha
    rw [hatt]
    split
    case isTrue => rfl
    case isFalse hnot =>
      have hn : n ≠ l := by
        rintro rfl
        exact hnot ha
      rw [hlist, if_neg hn] at hw
      exact h.waking n hw a ha

omit [DecidableEq ι] in
/-- **`wakeUpAll`** keeps the invariant. -/
theorem Inv.wakeUpAll (h : s.Inv) (l : ℕ) : ((s.wakeUpAll l).call l).Inv := by
  unfold JavaWakeState.wakeUpAll
  split
  case isTrue hzero =>
    rw [call_eq_self (h.nobody (by omega))]
    exact h
  case isFalse hcount =>
    refine h.woken (l := l) (by omega) (att_notified l) fun n => ?_
    exact Function.update_apply ..

omit [DecidableEq ι] in
/-- At the start nobody reads. -/
theorem inv_start
    (hatt : ∀ a, (s.att a).pc = .idle ∧ (s.att a).wakeUp = false ∧ (s.att a).waiting = false ∧
      (s.att a).called = false ∧ (s.att a).last = none)
    (hlist : ∀ l, (s.list l).wakeAll = false ∧ (s.list l).waitingCount = 0) : s.Inv := by
  have hno : ∀ l, (s.list l).wakeAll ≠ true := fun l hw => absurd ((hlist l).1.symm.trans hw) nofun
  refine ⟨fun a => ?_, fun a hc => ?_, fun l => ?_, fun l hw => absurd hw (hno l),
    fun l hw => absurd hw (hno l)⟩
  · obtain ⟨-, hmark, hwaiting, -, hlast⟩ := hatt a
    exact ⟨fun hw => absurd (hmark.symm.trans hw) nofun,
      fun hw => absurd (hwaiting.symm.trans hw) nofun,
      fun found hf => absurd (hlast.symm.trans hf) nofun⟩
  · exact absurd ((hatt a).2.2.2.1.symm.trans hc) nofun
  · rw [(hlist l).2, tally, Finset.sum_eq_zero]
    intro a _
    refine JavaAttachment.counts_of_not_waits ?_ l
    rintro (h | h) <;> exact absurd ((hatt a).1.symm.trans h) nofun

/-- **A timely step** keeps the invariant. -/
theorem Inv.step (h : s.Inv) {act : JavaWakeAct ι} (hok : s.Timely hdr table act)
    (hstep : s.step hdr table act = some t) : t.Inv := by
  cases act with
  | start a request call list =>
      rw [JavaWakeState.step, Option.ite_none_right_eq_some] at hstep
      obtain ⟨⟨hpc, -⟩, hstep⟩ := hstep
      cases hstep
      have hnot : ¬ (s.att a).Waits := by rintro (h | h) <;> exact absurd (hpc.symm.trans h) nofun
      have hquit : (s.att a).wakeUp ≠ true := fun hw => ((h.tidy a).wakeUp hw).2 hpc
      refine h.setIdle ⟨fun hw => absurd hw hquit, fun hw => absurd ((h.tidy a).waiting hw) hnot,
        (h.tidy a).only_found⟩ nofun ?_ hnot
      unfold JavaAttachment.start JavaAttachment.Waits
      cases request <;> exact nofun
  | again a =>
      rw [JavaWakeState.step, Option.ite_none_right_eq_some] at hstep
      obtain ⟨⟨hpc, -⟩, hstep⟩ := hstep
      cases hstep
      refine h.proceed (by simp [hpc]) (by simp [JavaAttachment.Waits, hpc]) (fun hw => ?_) rfl nofun
      exact ⟨fun hm => ⟨((h.tidy a).wakeUp hm).1, nofun⟩, fun hm => absurd (hw.symm.trans hm) nofun,
        (h.tidy a).only_found⟩
  | test a =>
      rw [JavaWakeState.step, Option.ite_none_right_eq_some] at hstep
      obtain ⟨hpc, hstep⟩ := hstep
      cases hstep
      unfold JavaAttachment.test
      split
      case isTrue hmark =>
        refine h.proceed (by simp [hpc]) (by simp [JavaAttachment.Waits, hpc]) (fun hw => ?_)
          (JavaAttachment.finish_called _) (JavaAttachment.not_waits_finish _)
        rw [JavaAttachment.finish_wakeup]
        exact JavaAttachment.tidy_leave (r := { s.att a with wakeUp := false }) rfl hw .wakeup
          fun _ => ((h.tidy a).wakeUp hmark).1
      case isFalse hmark =>
        refine h.proceed (by simp [hpc]) (by simp [JavaAttachment.Waits, hpc]) (fun hw => ?_) rfl
          nofun
        exact ⟨fun hm => absurd hm hmark, fun hm => absurd (hw.symm.trans hm) nofun,
          (h.tidy a).only_found⟩
  | get a timeOver =>
      rw [JavaWakeState.step, Option.ite_none_right_eq_some] at hstep
      obtain ⟨hpc, hstep⟩ := hstep
      cases hstep
      exact h.setRead ((h.tidy a).moves_get hpc (h.not_called (by simp [hpc]) (by simp [hpc]))
        (h.alive _) hok)
  | resume a timeOver =>
      rw [JavaWakeState.step, Option.ite_none_right_eq_some] at hstep
      obtain ⟨hpc, hstep⟩ := hstep
      cases hstep
      have hle := le_tally (JavaAttachment.counts (s.att a).list) s.att a
      rw [← h.counted, JavaAttachment.counts_of_waits hpc] at hle
      exact h.setRead ((h.tidy a).moves_resume hpc (h.answered a) hle
        (fun hw => h.waking _ hw a ⟨hpc, rfl⟩) timeOver)
  | clear a =>
      rw [JavaWakeState.step, Option.ite_none_right_eq_some] at hstep
      obtain ⟨hpc, hstep⟩ := hstep
      cases hstep
      exact h.proceed (by simp [hpc]) (by simp [JavaAttachment.Waits, hpc])
        (fun hw => JavaAttachment.tidy_leave (r := { s.att a with wakeUp := false }) rfl hw .ok
          nofun) rfl nofun
  | refuse a =>
      rw [JavaWakeState.step, Option.ite_none_right_eq_some] at hstep
      obtain ⟨hpc, hstep⟩ := hstep
      cases hstep
      exact h.proceed (by simp [hpc]) (by simp [JavaAttachment.Waits, hpc])
        (fun hw => JavaAttachment.tidy_leave hok hw .error nofun) rfl nofun
  | disconnect a =>
      rw [JavaWakeState.step, Option.ite_none_right_eq_some] at hstep
      obtain ⟨⟨hpc, -⟩, hstep⟩ := hstep
      cases hstep
      exact h.proceed (by simp [hpc]) (by simp [JavaAttachment.Waits, hpc])
        (fun hw => JavaAttachment.tidy_leave hok hw .error nofun) rfl nofun
  | change l events =>
      cases hstep
      exact h.change l events
  | netWakeAtt a =>
      rw [JavaWakeState.step, Option.ite_none_right_eq_some] at hstep
      obtain ⟨hready, hstep⟩ := hstep
      cases hstep
      have hwaiting : (s.att a).waiting = false := by
        rw [← Bool.not_eq_true]
        intro hw
        refine hready a rfl ?_
        unfold JavaAttachment.Served
        rcases (h.tidy a).waiting hw with hpc | hpc <;> rw [hpc] <;> trivial
      have hsame : s.wakeUp table a = s := by
        rw [JavaWakeState.wakeUp, hwaiting]
        rfl
      rw [hsame]
      exact h.mark hok
  | netWakeAll station =>
      rw [JavaWakeState.step, Option.ite_none_right_eq_some] at hstep
      obtain ⟨-, hstep⟩ := hstep
      split at hstep
      case isTrue =>
        cases hstep
        exact ⟨h.tidy, h.answered, h.counted, h.alive, h.waking⟩
      case isFalse hno =>
        cases hstep
        rw [call_eq_self (hok.resolve_left hno)]
        exact h
  | wakerGo =>
      rw [JavaWakeState.step] at hstep
      unfold Timely WakerTimely at hok
      split at hstep
      case h_1 => cases hstep
      case h_2 station hwaker =>
        cases hstep
        have := h.wakeUpAll station
        exact ⟨this.tidy, this.answered, this.counted, this.alive, this.waking⟩
      case h_3 station a rest hwaker =>
        cases hstep
        rw [hwaker] at hok
        have := h.mark hok
        exact ⟨this.tidy, this.answered, this.counted, this.alive, this.waking⟩

omit [DecidableEq ι] in
/-- The invariant has it that wake-ups are exact. -/
theorem Inv.exact (h : s.Inv) : s.Exact where
  only_found a := (h.tidy a).only_found
  reached a hc := (h.answered a hc).imp_left And.left
  wakeUp a := (h.tidy a).wakeUp
  wakeAll l hw := by
    have hpos := h.alive l hw
    rw [h.counted l] at hpos
    obtain ⟨a, ha⟩ := exists_of_tally_pos hpos
    have hwaits : (s.att a).WaitsOn l := by
      by_contra hnot
      rw [JavaAttachment.counts, if_neg hnot] at ha
      exact lt_irrefl 0 ha
    exact ⟨a, hwaits, h.waking l hw a hwaits⟩

end JavaWakeState

/-- **Wake-ups hit exactly the reads they are meant for**, in every state of every timely
run. -/
theorem javaWakeUps_exact {ι : Type} [Fintype ι] [DecidableEq ι] (hdr : ℕ → EventHeader)
    (table : JavaStations ι) {s : JavaWakeState ι}
    (run : (javaWakeUps hdr table).Reach (JavaWakeState.Timely hdr table) s) : s.Exact := by
  have hinv : s.Inv := by
    apply run.invariant
    · rintro s ⟨hatt, hlist, -⟩
      exact JavaWakeState.inv_start hatt hlist
    · exact fun s a t h hok hstep => h.step hok hstep
  exact hinv.exact

/-- One client, whose attachment is at station `1`. -/
def oneClient : JavaStations (Fin 1) where
  stations := [0, 1]
  station _ := 1
  client _ := Fin.last 0
  attachments s := if s = 1 then [Fin.last 0] else []

/-- The client does not read, and the lists are empty. -/
def quietClient : JavaWakeState (Fin 1) where
  att _ := ⟨false, false, .async, .get 1, 0, .idle, false, false, none⟩
  list _ := ⟨[], false, 0⟩
  waker := none

theorem quietClient_start :
    (javaWakeUps (fun _ => .init) oneClient).start quietClient :=
  ⟨fun _ => ⟨rfl, rfl, rfl, rfl, rfl⟩, fun _ => ⟨rfl, rfl⟩, rfl⟩

/-- A client waits for events of its station, and the station is woken. -/
theorem javaWakeUps_exact_example :
    ∃ s, (javaWakeUps (fun _ => .init) oneClient).Reach
        (JavaWakeState.Timely (fun _ => .init) oneClient) s ∧
      (s.att 0).called = true ∧ (s.att 0).last = some (.wakeup, true) ∧ s.Exact := by
  have hrun : ((Machine.runActs (JavaWakeState.step (fun _ => .init) oneClient)
      (JavaWakeState.Timely (fun _ => .init) oneClient)
      [.start 0 (.timed none) (.get 1) 1, .test 0, .get 0 false, .netWakeAll 1, .wakerGo, .wakerGo,
        .resume 0 false] quietClient).map fun s => ((s.att 0).called, (s.att 0).last)) =
      some (true, some (.wakeup, true)) := by decide
  obtain ⟨s, hs, hend⟩ := Option.map_eq_some_iff.mp hrun
  have run : (javaWakeUps (fun _ => .init) oneClient).Reach
      (JavaWakeState.Timely (fun _ => .init) oneClient) s :=
    Machine.reach_of_runActs (.start quietClient_start) hs
  obtain ⟨hcalled, hlast⟩ := Prod.mk.injEq .. ▸ hend
  exact ⟨s, run, hcalled, hlast, javaWakeUps_exact _ _ run⟩

/-- **A read is woken that was not there.**  The attachment is woken while it does not read;
its flag stays set, and the next timed read returns at once. -/
theorem netWakeAtt_hits_later_read :
    ∃ s, (javaWakeUps (fun _ => .init) oneClient).Reach (fun _ _ => True) s ∧
      (s.att 0).last = some (.wakeup, false) ∧ ¬ s.Exact := by
  have hrun : ((Machine.runActs (JavaWakeState.step (fun _ => .init) oneClient) (fun _ _ => True)
      [.netWakeAtt 0, .start 0 (.timed none) (.get 1) 1, .test 0] quietClient).map
        fun s => (s.att 0).last) = some (some (.wakeup, false)) := by decide
  obtain ⟨s, hs, hlast⟩ := Option.map_eq_some_iff.mp hrun
  refine ⟨s, Machine.reach_of_runActs (.start quietClient_start) hs, hlast, fun h => ?_⟩
  exact Bool.false_ne_true (h.only_found 0 false hlast)

end EventTransfer
