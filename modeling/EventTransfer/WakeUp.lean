import EventTransfer.Lib.StepRun

/-!
# Wake-ups of waiting reads

`et_wakeup_attachment` and `et_wakeup_all` end reads that wait for events.  Whoever wakes an
attachment looks at its `blocked` and `sleep` flags, sets its `quit` flag when one of them is
set, and broadcasts the condition variables of its own station and of GRAND_CENTRAL; it takes
no mutex.  A read (`et_station_read`, `et_station_nread`) holds the mutex of the input list,
sets `blocked` while it waits, and tests `quit` after the wait.  The server sets `sleep` when
it handles a timed request of a remote client, and tests `quit` before the read; the client
repeats such requests until its own time is over.

Attachments, lists and wakers are one transition system, with one step for each access to a
flag.  The reads of one attachment follow one another, as an attachment belongs to one
thread.  A waiting read may wake at any time, since a condition variable may do that and
since events come and go; `signalled` only says whether it has to.

In the code a wake-up can miss: the mark may come after the read that was found, a read can
end by its time limit or with events while the mark is set, and a broadcast may fall between
setting `blocked` and waiting.  The flag `sleep` stays set after a timed request, so that a
wake-up takes the attachment for asleep when it is not reading at all.  Runs where none of
this happens (`Timely`) are exact: reads return `ET_ERROR_WAKEUP` only when found, and no mark
survives a read.
-/

namespace EventTransfer

open StepRun

/-- `ET_SLEEP`, `ET_TIMED` and `ET_ASYNC`. -/
inductive WaitMode
  | sleep
  | timed
  | async
  deriving DecidableEq, Repr

/-- What a read returns.  `error` stands for `ET_ERROR` and for the errors of the checks
made before the list is read. -/
inductive ReadResult
  | ok
  | timeout
  | empty
  | busy
  | wakeup
  | error
  deriving DecidableEq, Repr

/-- What `pthread_cond_wait` and `pthread_cond_timedwait` return: zero, `ETIMEDOUT`, or
another error number. -/
inductive WaitStatus
  | ok
  | timedOut
  | failed
  deriving DecidableEq, Repr

/-- **How a read is called.**  A local process reads in the given mode, and so does the
server for a request in the mode `ET_ASYNC`.  A remote client sends timed requests, which it
repeats forever (`none`, its mode was `ET_SLEEP`) or as often as given.  The server also has
a loop of its own for requests in the mode `ET_SLEEP`, which it leaves without an answer when
the connection is gone. -/
inductive ReadCall
  | direct (mode : WaitMode)
  | timedRequests (iterations : Option ℕ)
  | sleepRequest
  deriving DecidableEq, Repr

/-- The mode in which `et_station_read` is called. -/
def ReadCall.mode : ReadCall → WaitMode
  | .direct mode => mode
  | .timedRequests _ | .sleepRequest => .timed

/-- **How far a read is.**  From `markSleep` to `testQuit`, and in `clearSleep` and
`clearQuit`, it is in the server; in `between`, in the client; otherwise in
`et_station_read`. -/
inductive ReadPc
  | idle
  | markSleep
  | testQuit
  | lock
  | test
  | toWait
  | waiting (signalled : Bool)
  | woken (status : WaitStatus)
  | status (status : WaitStatus)
  | clear
  | tryLock
  | asyncQuit
  | asyncCnt
  | clearSleep (result : ReadResult)
  | clearQuit (result : ReadResult)
  | between
  deriving DecidableEq, Repr

/-- Who has the mutex of a list. -/
inductive Holder
  | free
  | reader
  | other
  deriving DecidableEq, Repr

/-- An input list: its event count and its mutex. -/
structure WaitList where
  cnt : ℕ
  holder : Holder
  deriving DecidableEq, Repr

/-- An attachment: its three flags in shared memory, and its read.

The last four fields record history and are read by no step: how many reads there were,
whether the present one has set `sleep`, whether a wake-up has found it blocked or asleep, and
what the last read returned, with whether it had been found. -/
structure Reader where
  blocked : Bool
  sleep : Bool
  quit : Bool
  call : ReadCall
  list : ℕ
  num : ℕ
  pc : ReadPc
  serial : ℕ
  asleep : Bool
  found : Bool
  last : Option (ReadResult × Bool)
  deriving DecidableEq, Repr

/-- `et_init_attachment`. -/
def Reader.init : Reader where
  blocked := false
  sleep := false
  quit := false
  call := .direct .sleep
  list := 0
  num := 0
  pc := .idle
  serial := 0
  asleep := false
  found := false
  last := none

namespace Reader

variable (r : Reader) (l : WaitList)

/-- The first step of `et_station_read`. -/
def enter : ReadPc :=
  match r.call.mode with
  | .sleep | .timed => .lock
  | .async => .tryLock

/-- The read returns. -/
def leave (result : ReadResult) : Reader :=
  { r with pc := .idle, asleep := false, last := some (result, r.found) }

/-- The get returns: to the caller, or to the server, or to the client, which send the
request again or look at `quit` again when the time is over. -/
def finish (result : ReadResult) : Reader :=
  match r.call, result with
  | .timedRequests none, .timeout => { r with pc := .between }
  | .timedRequests (some (n + 1)), .timeout =>
      { r with pc := .between, call := .timedRequests (some n) }
  | .sleepRequest, .timeout => { r with pc := .testQuit }
  | .sleepRequest, result => { r with pc := .clearSleep result }
  | _, result => r.leave result

/-- **The next step** of a read, where it does not wait for something else to happen. -/
def go : Option (Reader × WaitList) :=
  match r.pc with
  | .idle | .waiting _ => none
  | .markSleep => some ({ r with sleep := true, asleep := true, pc := .testQuit }, l)
  | .testQuit =>
      if r.quit then some ({ r with pc := .clearSleep .wakeup }, l)
      else some ({ r with pc := r.enter }, l)
  | .lock =>
      if r.num < 1 then some (r.finish .ok, l)
      else if l.holder = .free then some ({ r with pc := .test }, { l with holder := .reader })
      else none
  | .test =>
      if l.cnt < 1 then some ({ r with blocked := true, pc := .toWait }, l)
      else some (r.finish .ok, ⟨l.cnt - min r.num l.cnt, .free⟩)
  | .toWait => some ({ r with pc := .waiting false }, { l with holder := .free })
  | .woken status => some ({ r with blocked := false, pc := .status status }, l)
  | .status .timedOut => some (r.finish .timeout, { l with holder := .free })
  -- the mutex is not given back here
  | .status .failed => some (r.finish .error, l)
  | .status .ok =>
      if r.quit then some ({ r with pc := .clear }, { l with holder := .free })
      else some ({ r with pc := .test }, l)
  | .clear => some ({ r with quit := false }.finish .wakeup, l)
  | .tryLock =>
      if r.num < 1 then some (r.finish .ok, l)
      else if l.holder = .free then
        some ({ r with pc := .asyncQuit }, { l with holder := .reader })
      else some (r.finish .busy, l)
  | .asyncQuit =>
      if r.quit then some ({ r with pc := .clear }, { l with holder := .free })
      else some ({ r with pc := .asyncCnt }, l)
  | .asyncCnt =>
      if l.cnt < 1 then some (r.finish .empty, { l with holder := .free })
      else some (r.finish .ok, ⟨l.cnt - min r.num l.cnt, .free⟩)
  | .clearSleep result =>
      some ({ r with sleep := false, asleep := false, pc := .clearQuit result }, l)
  | .clearQuit result => some ({ r with quit := false }.leave result, l)
  | .between => some ({ r with pc := .markSleep }, l)

/-- A read begins. -/
def start (call : ReadCall) (list num : ℕ) : Reader :=
  { r with
    call := call
    list := list
    num := num
    pc := match call with
      | .direct .sleep | .direct .timed => .lock
      | .direct .async => .tryLock
      | .timedRequests _ | .sleepRequest => .markSleep
    serial := r.serial + 1
    asleep := false
    found := false }

/-- The wait ends, and the mutex is taken again.  Only a timed wait ends by its time
limit. -/
def wake (status : WaitStatus) : Option (Reader × WaitList) :=
  match r.pc, l.holder, status with
  | .waiting _, .free, .ok => some ({ r with pc := .woken .ok }, { l with holder := .reader })
  | .waiting _, .free, .timedOut =>
      if r.call.mode = .timed then
        some ({ r with pc := .woken .timedOut }, { l with holder := .reader })
      else none
  | _, _, _ => none

/-- `pthread_cond_timedwait` does not accept the time limit. -/
def reject : Option Reader :=
  if r.pc = .toWait ∧ r.call.mode = .timed then some { r with pc := .woken .failed } else none

/-- `et_event_get` returns an error before it reads the list. -/
def refuse : Option Reader :=
  if r.pc = .lock ∨ r.pc = .tryLock then some (r.finish .error) else none

/-- A broadcast reaches the read, if it waits. -/
def signal : Reader :=
  match r.pc with
  | .waiting _ => { r with pc := .waiting true }
  | _ => r

end Reader

/-- The attachment that is to be woken.  In `et_wakeup_all`, `next` is the station and the
index of its `att` array where the loop goes on. -/
structure WakeTarget where
  att : ℕ
  next : Option (ℕ × ℕ)
  deriving DecidableEq, Repr

/-- How far a waker is.  In `mark`, `found` is the read that the flags belonged to, if they
belonged to one. -/
inductive WakePc
  | idle
  | scan (station i : ℕ)
  | testBlocked (target : WakeTarget)
  | testSleep (target : WakeTarget)
  | mark (target : WakeTarget) (found : Option ℕ)
  | castOwn (station : ℕ)
  | castGrandCentral
  deriving DecidableEq, Repr

/-- `et_wakeup_all` goes on with its loop after an attachment, `et_wakeup_attachment` goes to
`done`. -/
def WakeTarget.after (target : WakeTarget) (done : WakePc) : WakePc :=
  match target.next with
  | none => done
  | some (station, i) => .scan station i

/-- A waker.  `marked` records the reads it has marked since it last broadcast. -/
structure Waker where
  pc : WakePc
  marked : List (ℕ × ℕ)
  deriving DecidableEq, Repr

/-- Which attachments there are: `attach[att].stat`, and the `att` arrays of the stations. -/
structure AttachTable where
  stat : ℕ → ℕ
  att : ℕ → ℕ → Option ℕ
  nattachments : ℕ
  registered : ∀ s i a, att s i = some a → stat a = s

/-- Attachments, input lists (number `0` is GRAND_CENTRAL's) and wakers. -/
structure WakeState where
  att : ℕ → Reader
  list : ℕ → WaitList
  waker : ℕ → Waker

/-- The atomic steps of reads, of the other users of a list's mutex, and of wakers. -/
inductive WakeAct
  | start (a : ℕ) (call : ReadCall) (list num : ℕ)
  | go (a : ℕ)
  | wake (a : ℕ) (status : WaitStatus)
  | reject (a : ℕ)
  | refuse (a : ℕ)
  | lock (l : ℕ)
  | unlock (l cnt : ℕ)
  | wakeupAttachment (w a : ℕ)
  | wakeupAll (w station : ℕ)
  | wakerGo (w : ℕ)
  deriving DecidableEq, Repr

namespace WakeState

variable (table : AttachTable) (s : WakeState)

/-- Attachment `a` and the list it reads after one of its steps. -/
def setRead (a : ℕ) (r : Reader × WaitList) : WakeState :=
  { s with
    att := Function.update s.att a r.1
    list := Function.update s.list (s.att a).list r.2 }

def setAtt (a : ℕ) (r : Reader) : WakeState := { s with att := Function.update s.att a r }

def setWaker (w : ℕ) (v : Waker) : WakeState := { s with waker := Function.update s.waker w v }

/-- `pthread_cond_broadcast` on the condition variable of a list. -/
def broadcast (l : ℕ) : WakeState :=
  { s with att := fun a => if (s.att a).list = l then (s.att a).signal else s.att a }

/-- A flag of attachment `a` is set, and belongs to its present read if `own` holds. -/
def find (w : ℕ) (target : WakeTarget) (own : Bool) : WakeState :=
  let r := s.att target.att
  if own then
    (s.setAtt target.att { r with found := true }).setWaker w
      { s.waker w with pc := .mark target (some r.serial) }
  else s.setWaker w { s.waker w with pc := .mark target none }

/-- `quit = ET_ATT_QUIT`. -/
def mark (w : ℕ) (target : WakeTarget) (found : Option ℕ) : WakeState :=
  (s.setAtt target.att { s.att target.att with quit := true }).setWaker w
    ⟨target.after (.castOwn (table.stat target.att)),
      (found.map fun k => (target.att, k)).toList ++ (s.waker w).marked⟩

/-- **The next step** of a waker. -/
def wakerGo (w : ℕ) : Option WakeState :=
  let v := s.waker w
  match v.pc with
  | .idle => none
  | .scan station i =>
      if i < table.nattachments then
        match table.att station i with
        | none => some (s.setWaker w { v with pc := .scan station (i + 1) })
        | some a => some (s.setWaker w { v with pc := .testBlocked ⟨a, some (station, i + 1)⟩ })
      else some (s.setWaker w { v with pc := .castOwn station })
  | .testBlocked target =>
      if (s.att target.att).blocked then some (s.find w target true)
      else some (s.setWaker w { v with pc := .testSleep target })
  | .testSleep target =>
      if (s.att target.att).sleep then some (s.find w target (s.att target.att).asleep)
      else some (s.setWaker w { v with pc := target.after .idle })
  | .mark target found => some (s.mark table w target found)
  | .castOwn station =>
      some ((s.broadcast station).setWaker w { v with pc := .castGrandCentral })
  | .castGrandCentral => some ((s.broadcast 0).setWaker w ⟨.idle, []⟩)

/-- **The steps**; `none` when a step is not possible. -/
def step (s : WakeState) : WakeAct → Option WakeState
  | .start a call list num =>
      if (s.att a).pc = .idle ∧ (list = table.stat a ∨ list = 0) then
        some (s.setAtt a ((s.att a).start call list num))
      else none
  | .go a => ((s.att a).go (s.list (s.att a).list)).map (s.setRead a)
  | .wake a status => ((s.att a).wake (s.list (s.att a).list) status).map (s.setRead a)
  | .reject a => (s.att a).reject.map (s.setAtt a)
  | .refuse a => (s.att a).refuse.map (s.setAtt a)
  | .lock l =>
      if (s.list l).holder = .free then
        some { s with list := Function.update s.list l { s.list l with holder := .other } }
      else none
  | .unlock l cnt =>
      if (s.list l).holder = .other then
        some { s with list := Function.update s.list l ⟨cnt, .free⟩ }
      else none
  | .wakeupAttachment w a =>
      if (s.waker w).pc = .idle then
        some (s.setWaker w { s.waker w with pc := .testBlocked ⟨a, none⟩ })
      else none
  | .wakeupAll w station =>
      if (s.waker w).pc = .idle then
        some (s.setWaker w { s.waker w with pc := .scan station 0 })
      else none
  | .wakerGo w => s.wakerGo table w

/-- No attachment reads, nobody wakes. -/
def initial (list : ℕ → WaitList) : WakeState where
  att _ := .init
  list := list
  waker _ := ⟨.idle, []⟩

end WakeState

/-- The reads and wake-ups of the attachments of `table`. -/
def wakeUps (table : AttachTable) : Machine WakeState WakeAct :=
  .ofStep (fun s => ∃ list, s = .initial list) (WakeState.step table)

/-! ### Timely runs -/

namespace Reader

variable (r : Reader)

/-- The read ends when its time is over: it is not repeated, by the client or the server. -/
def LastTime : Prop := r.call = .direct .timed ∨ r.call = .timedRequests (some 0)

instance : Decidable r.LastTime := inferInstanceAs (Decidable (_ ∨ _))

/-- The next step leaves no mark behind, and is no error of a read that was found.  Only the
server's loop for `ET_SLEEP` clears `quit` after a read that returned events. -/
def Timely (l : WaitList) : Prop :=
  match r.pc with
  | .lock => r.num < 1 → r.call = .sleepRequest ∨ r.quit = false
  | .test => 1 ≤ l.cnt → r.call = .sleepRequest ∨ r.quit = false
  | .status .timedOut => r.LastTime → r.quit = false
  | .status .failed => r.found = false
  | .clearQuit .error => r.found = false
  | _ => True

instance (l : WaitList) : Decidable (r.Timely l) := by
  unfold Timely
  split <;> infer_instance

/-- The read waits without a time limit, and has yet to begin waiting. -/
def Late : Prop :=
  r.call = .direct .sleep ∧ r.quit = true ∧ (r.pc = .lock ∨ r.pc = .test ∨ r.pc = .toWait)

instance : Decidable r.Late := inferInstanceAs (Decidable (_ ∧ _ ∧ _))

end Reader

namespace WakeState

/-- The reads on list `l` that waker `w` has marked wait already. -/
def InTime (s : WakeState) (w l : ℕ) : Prop :=
  ∀ m ∈ (s.waker w).marked, (s.att m.1).serial = m.2 → (s.att m.1).list = l → ¬ (s.att m.1).Late

instance (s : WakeState) (w l : ℕ) : Decidable (s.InTime w l) :=
  inferInstanceAs (Decidable (∀ m ∈ (s.waker w).marked, _ → _ → ¬ _))

/-- A waker at `pc` sets `quit` while the read it found is in progress, and broadcasts in
time. -/
def WakerTimely (s : WakeState) (w : ℕ) : WakePc → Prop
  | .mark target found =>
      found = some (s.att target.att).serial ∧ (s.att target.att).pc ≠ .idle
  | .castOwn station => s.InTime w station
  | .castGrandCentral => s.InTime w 0
  | .idle | .scan _ _ | .testBlocked _ | .testSleep _ => True

instance (s : WakeState) (w : ℕ) : (pc : WakePc) → Decidable (s.WakerTimely w pc)
  | .mark target found => inferInstanceAs (Decidable
      (found = some (s.att target.att).serial ∧ (s.att target.att).pc ≠ .idle))
  | .castOwn station => inferInstanceAs (Decidable (s.InTime w station))
  | .castGrandCentral => inferInstanceAs (Decidable (s.InTime w 0))
  | .idle | .scan _ _ | .testBlocked _ | .testSleep _ => isTrue trivial

/-- **Timely steps.**  A waker sets `quit` while the read it found is in progress, and
broadcasts when no read it marked is about to wait; a read that is marked does not end with
events or by its time limit, and a read that was found does not end with an error. -/
def Timely (s : WakeState) : WakeAct → Prop
  | .go a => (s.att a).Timely (s.list (s.att a).list)
  | .refuse a => (s.att a).found = false
  | .wakerGo w => s.WakerTimely w (s.waker w).pc
  | _ => True

instance (s : WakeState) : (act : WakeAct) → Decidable (s.Timely act)
  | .go a => inferInstanceAs (Decidable ((s.att a).Timely (s.list (s.att a).list)))
  | .refuse a => inferInstanceAs (Decidable ((s.att a).found = false))
  | .wakerGo w => inferInstanceAs (Decidable (s.WakerTimely w (s.waker w).pc))
  | .start .. | .wake .. | .reject _ | .lock _ | .unlock .. | .wakeupAttachment ..
  | .wakeupAll .. => isTrue trivial

end WakeState

/-- The waker has found the present read `r` of attachment `a`, and has yet to broadcast the
condition variable it waits on. -/
def Waker.Pending (v : Waker) (a : ℕ) (r : Reader) : Prop :=
  (∃ target, target.att = a ∧ v.pc = .mark target (some r.serial)) ∨
    ((a, r.serial) ∈ v.marked ∧ (v.pc = .castGrandCentral → r.list = 0))

/-! ### One read -/

namespace Reader

variable {r : Reader} {l : WaitList}

/-- The steps that a read called in this way goes through. -/
def Fits (call : ReadCall) : ReadPc → Prop
  | .idle | .clear => True
  | .markSleep | .testQuit | .between => ∀ m, call ≠ .direct m
  | .clearSleep result | .clearQuit result =>
      (∀ m, call ≠ .direct m) ∧ result ≠ .empty ∧ result ≠ .busy
  | .lock | .test | .toWait | .waiting _ => call ≠ .direct .async
  | .woken status | .status status =>
      call ≠ .direct .async ∧ (status ≠ .ok → call ≠ .direct .sleep)
  | .tryLock | .asyncQuit | .asyncCnt => call = .direct .async

/-- The read is on its way to return `ET_ERROR_WAKEUP`. -/
def Wakes : ReadPc → Prop
  | .clear | .clearSleep .wakeup | .clearQuit .wakeup => True
  | _ => False

/-- The flag `blocked` is set. -/
def Blocks : ReadPc → Bool
  | .toWait | .waiting _ | .woken _ => true
  | _ => false

/-- **The invariant of one attachment.** -/
structure Tidy (r : Reader) : Prop where
  fits : Fits r.call r.pc
  quit : r.quit = true → r.found = true ∧ r.pc ≠ .idle
  wakes : Wakes r.pc → r.found = true
  blocked : r.blocked = Blocks r.pc
  asleep : r.asleep = true → r.pc ≠ .idle ∧ ∀ m, r.call ≠ .direct m
  found : r.found = true → r.call ≠ .direct .async
  only_found : ∀ found, r.last = some (.wakeup, found) → found = true
  woken : ∀ result, r.last = some (result, true) →
    result = .wakeup ∨ result = .ok ∨ result = .timeout

theorem tidy_init : Tidy .init := by
  constructor <;> simp [init, Fits, Wakes, Blocks]

/-- A read that ends without a mark. -/
theorem Tidy.leave (h : r.Tidy) (hblocked : r.blocked = false) (hquit : r.quit = false)
    {result : ReadResult} (hwakes : result = .wakeup → r.found = true)
    (hfound : r.found = true → result = .wakeup ∨ result = .ok ∨ result = .timeout) :
    (r.leave result).Tidy := by
  refine ⟨trivial, ?_, ?_, hblocked, ?_, h.found, ?_, ?_⟩
  · intro hq
    exact absurd (hquit.symm.trans hq) Bool.false_ne_true
  · rintro ⟨⟩
  · rintro ⟨⟩
  · intro found hlast
    obtain ⟨rfl, rfl⟩ := Prod.mk.inj (Option.some.inj hlast)
    exact hwakes rfl
  · intro res hlast
    obtain ⟨rfl, hf⟩ := Prod.mk.inj (Option.some.inj hlast)
    exact hfound hf

/-- A timed call that is not repeated. -/
theorem last_of (hfits : r.call ≠ .direct .sleep ∧ r.call ≠ .direct .async)
    (hforever : r.call ≠ .timedRequests none)
    (hrepeat : ∀ n, r.call ≠ .timedRequests (some (n + 1))) (hsleep : r.call ≠ .sleepRequest) :
    r.LastTime := by
  unfold LastTime
  cases hcall : r.call with
  | direct mode => cases mode <;> simp_all
  | timedRequests n =>
      cases n with
      | none => exact absurd hcall hforever
      | some n =>
          cases n with
          | zero => exact .inr rfl
          | succ n => exact absurd hcall (hrepeat n)
  | sleepRequest => exact absurd hcall hsleep

/-- The get returns.  Unless somebody looks at `quit` or clears it afterwards, there must be
no mark. -/
theorem Tidy.finish (h : r.Tidy) (hblocked : r.blocked = false) {result : ReadResult}
    (hquit : r.call = .sleepRequest ∨ (result = .timeout ∧ ¬ r.LastTime) ∨ r.quit = false)
    (hwakes : result = .wakeup → r.found = true)
    (hfound : r.found = true → result = .wakeup ∨ result = .ok ∨ result = .timeout)
    (hmode : r.call ≠ .direct .async → result ≠ .empty ∧ result ≠ .busy)
    (hfits : result = .timeout → r.call ≠ .direct .sleep ∧ r.call ≠ .direct .async) :
    (r.finish result).Tidy := by
  have hagain : ∀ pc call, (∀ m, call ≠ .direct m) → Fits call pc → Blocks pc = false →
      ¬ Wakes pc → pc ≠ .idle → Tidy { r with pc := pc, call := call } := by
    intro pc call hcall hpc hblocks hnot hidle
    exact ⟨hpc, fun hq => ⟨(h.quit hq).1, hidle⟩, fun hw => absurd hw hnot,
      hblocked.trans hblocks.symm, fun _ => ⟨hidle, hcall⟩, fun _ => hcall _, h.only_found,
      h.woken⟩
  unfold Reader.finish
  split
  case h_1 hcall =>
    rw [hcall]
    exact hagain .between _ (by simp) (by simp [Fits]) rfl (by simp [Wakes]) (by simp)
  case h_2 hcall =>
    exact hagain .between _ (by simp) (by simp [Fits]) rfl (by simp [Wakes]) (by simp)
  case h_3 hcall =>
    have := hagain .testQuit r.call (by simp [hcall]) (by simp [Fits, hcall]) rfl
      (by simp [Wakes]) (by simp)
    exact this
  case h_4 res hcall _ =>
    have hnot : ∀ m, r.call ≠ .direct m := by simp [hcall]
    refine ⟨⟨hnot, hmode (hnot _)⟩, fun hq => ⟨(h.quit hq).1, by simp⟩, ?_, hblocked,
      fun _ => ⟨by simp, hnot⟩, h.found, h.only_found, h.woken⟩
    intro hw
    refine hwakes ?_
    simp only [Wakes] at hw
    split at hw
    · contradiction
    · simp_all
    · contradiction
    · contradiction
  case h_5 hsleep hforever hrepeat _ =>
    refine h.leave hblocked ?_ hwakes hfound
    rcases hquit with hcall | ⟨rfl, hlast⟩ | hquit
    · exact (hsleep hcall).elim
    · refine absurd (last_of (hfits rfl) ?_ ?_ hsleep) hlast
      · exact fun hcall => hforever hcall rfl
      · exact fun n hcall => hrepeat n hcall rfl
    · exact hquit

/-- The read goes on to `pc`. -/
theorem Tidy.goto (h : r.Tidy) {pc : ReadPc} {blocked : Bool} (hfits : Fits r.call pc)
    (hidle : pc ≠ .idle) (hwakes : Wakes pc → r.found = true) (hblocked : blocked = Blocks pc) :
    Tidy { r with pc := pc, blocked := blocked } :=
  ⟨hfits, fun hq => ⟨(h.quit hq).1, hidle⟩, hwakes, hblocked,
    fun ha => ⟨hidle, (h.asleep ha).2⟩, h.found, h.only_found, h.woken⟩

theorem fits_enter (hcall : ∀ m, r.call ≠ .direct m) : r.enter = .lock := by
  unfold enter
  cases hc : r.call with
  | direct mode => exact absurd hc (hcall mode)
  | timedRequests n => rfl
  | sleepRequest => rfl

/-- The mark is cleared. -/
theorem Tidy.unmark (h : r.Tidy) : Tidy { r with quit := false } :=
  ⟨h.fits, nofun, h.wakes, h.blocked, h.asleep, h.found, h.only_found, h.woken⟩

/-- A read in the mode `ET_ASYNC` is never found. -/
theorem Tidy.finish_async (h : r.Tidy) (hblocked : r.blocked = false)
    (hcall : r.call = .direct .async) {result : ReadResult} (hwakes : result ≠ .wakeup)
    (htime : result ≠ .timeout) : (r.finish result).Tidy := by
  have hfound : ¬ r.found = true := fun hf => h.found hf hcall
  have hquit : r.quit = false := by
    rw [← Bool.not_eq_true]
    exact fun hq => hfound (h.quit hq).1
  exact h.finish hblocked (.inr (.inr hquit)) (fun hw => absurd hw hwakes)
    (fun hf => absurd hf hfound) (fun hne => absurd hcall hne) fun ht => absurd ht htime

/-- **A timely step of a read** keeps the invariant. -/
theorem Tidy.go (h : r.Tidy) (hok : r.Timely l) {q : Reader × WaitList}
    (hgo : r.go l = some q) : q.1.Tidy := by
  have hfits := h.fits
  have hblocked := h.blocked
  have hwakes := h.wakes
  unfold Reader.go at hgo
  unfold Reader.Timely at hok
  cases hpc : r.pc <;> simp only [hpc] at hgo hok hfits hblocked hwakes
  case idle => cases hgo
  case waiting => cases hgo
  case markSleep =>
    cases hgo
    exact ⟨hfits, fun hq => ⟨(h.quit hq).1, nofun⟩, nofun, hblocked, fun _ => ⟨nofun, hfits⟩,
      h.found, h.only_found, h.woken⟩
  case testQuit =>
    split at hgo
    case isTrue hq =>
      cases hgo
      exact h.goto ⟨hfits, nofun, nofun⟩ nofun (fun _ => (h.quit hq).1) hblocked
    case isFalse =>
      cases hgo
      rw [fits_enter hfits]
      exact h.goto (hfits _) nofun nofun hblocked
  case lock =>
    split at hgo
    case isTrue hnum =>
      cases hgo
      exact h.finish hblocked ((hok hnum).imp_right .inr) nofun (fun _ => .inr (.inl rfl))
        (fun _ => ⟨nofun, nofun⟩) nofun
    case isFalse =>
      split at hgo
      · cases hgo
        exact h.goto hfits nofun nofun hblocked
      · cases hgo
  case test =>
    split at hgo
    case isTrue =>
      cases hgo
      exact h.goto hfits nofun nofun rfl
    case isFalse hcnt =>
      cases hgo
      exact h.finish hblocked ((hok (by omega)).imp_right .inr) nofun (fun _ => .inr (.inl rfl))
        (fun _ => ⟨nofun, nofun⟩) nofun
  case toWait =>
    cases hgo
    exact h.goto hfits nofun nofun hblocked
  case woken status =>
    cases hgo
    exact h.goto hfits nofun nofun rfl
  case status status =>
    cases status with
    | ok =>
        simp only at hgo
        split at hgo
        case isTrue hq =>
          cases hgo
          exact h.goto trivial nofun (fun _ => (h.quit hq).1) hblocked
        case isFalse =>
          cases hgo
          exact h.goto hfits.1 nofun nofun hblocked
    | timedOut =>
        cases hgo
        refine h.finish hblocked ?_ nofun (fun _ => .inr (.inr rfl)) (fun _ => ⟨nofun, nofun⟩)
          fun _ => ⟨hfits.2 nofun, hfits.1⟩
        by_cases hlast : r.LastTime
        · exact .inr (.inr (hok hlast))
        · exact .inr (.inl ⟨rfl, hlast⟩)
    | failed =>
        cases hgo
        have hquit : r.quit = false := by
          by_contra hq
          exact absurd (h.quit (by simpa using hq)).1 (by simp [hok])
        exact h.finish hblocked (.inr (.inr hquit)) nofun
          (fun hf => absurd (hok.symm.trans hf) (by simp)) (fun _ => ⟨nofun, nofun⟩) nofun
  case clear =>
    cases hgo
    exact h.unmark.finish hblocked (.inr (.inr rfl)) (fun _ => hwakes trivial)
      (fun _ => .inl rfl) (fun _ => ⟨nofun, nofun⟩) nofun
  case tryLock =>
    split at hgo
    case isTrue =>
      cases hgo
      exact h.finish_async hblocked hfits nofun nofun
    case isFalse =>
      split at hgo
      · cases hgo
        exact h.goto hfits nofun nofun hblocked
      · cases hgo
        exact h.finish_async hblocked hfits nofun nofun
  case asyncQuit =>
    split at hgo
    case isTrue hq =>
      cases hgo
      exact h.goto trivial nofun (fun _ => (h.quit hq).1) hblocked
    case isFalse =>
      cases hgo
      exact h.goto hfits nofun nofun hblocked
  case asyncCnt =>
    split at hgo
    · cases hgo
      exact h.finish_async hblocked hfits nofun nofun
    · cases hgo
      exact h.finish_async hblocked hfits nofun nofun
  case clearSleep result =>
    cases hgo
    refine ⟨hfits, fun hq => ⟨(h.quit hq).1, nofun⟩, fun hw => hwakes ?_, hblocked, nofun,
      h.found, h.only_found, h.woken⟩
    cases result <;> simp_all [Wakes]
  case clearQuit result =>
    cases hgo
    refine h.unmark.leave hblocked rfl ?_ ?_
    · rintro rfl
      exact hwakes trivial
    · intro hf
      cases result with
      | ok => exact .inr (.inl rfl)
      | timeout => exact .inr (.inr rfl)
      | wakeup => exact .inl rfl
      | empty => exact absurd rfl hfits.2.1
      | busy => exact absurd rfl hfits.2.2
      | error => exact absurd (hok.symm.trans hf) Bool.false_ne_true
  case between =>
    cases hgo
    exact h.goto hfits nofun nofun hblocked

theorem Tidy.start (h : r.Tidy) (hpc : r.pc = .idle) (call : ReadCall) (list num : ℕ) :
    (r.start call list num).Tidy := by
  have hquit : r.quit ≠ true := fun hq => (h.quit hq).2 hpc
  have hblocked : r.blocked = false := h.blocked.trans (by rw [hpc]; rfl)
  unfold Reader.start
  refine ⟨?_, fun hq => absurd hq hquit, ?_, ?_, nofun, nofun, h.only_found, h.woken⟩
  · cases call with
    | direct mode => cases mode <;> simp [Fits]
    | timedRequests n => simp [Fits]
    | sleepRequest => simp [Fits]
  · cases call with
    | direct mode => cases mode <;> simp [Wakes]
    | timedRequests n => simp [Wakes]
    | sleepRequest => simp [Wakes]
  · rw [hblocked]
    cases call with
    | direct mode => cases mode <;> rfl
    | timedRequests n => rfl
    | sleepRequest => rfl

theorem Tidy.wake (h : r.Tidy) {status : WaitStatus} {q : Reader × WaitList}
    (hwake : r.wake l status = some q) : q.1.Tidy := by
  have hfits := h.fits
  have hblocked := h.blocked
  unfold Reader.wake at hwake
  split at hwake
  case h_1 hpc _ =>
    cases hwake
    rw [hpc] at hfits hblocked
    exact h.goto ⟨hfits, fun hne => absurd rfl hne⟩ nofun nofun hblocked
  case h_2 hpc _ =>
    rw [Option.ite_none_right_eq_some] at hwake
    obtain ⟨hmode, hwake⟩ := hwake
    cases hwake
    rw [hpc] at hfits hblocked
    refine h.goto ⟨hfits, fun _ hcall => ?_⟩ nofun nofun hblocked
    rw [hcall] at hmode
    cases hmode
  case h_3 => cases hwake

theorem Tidy.reject (h : r.Tidy) {q : Reader} (hreject : r.reject = some q) : q.Tidy := by
  rw [Reader.reject, Option.ite_none_right_eq_some] at hreject
  obtain ⟨⟨hpc, hmode⟩, hq⟩ := hreject
  cases hq
  have hblocked := h.blocked
  have hfits := h.fits
  rw [hpc] at hblocked hfits
  refine h.goto ⟨hfits, fun _ hcall => ?_⟩ nofun nofun hblocked
  rw [hcall] at hmode
  cases hmode

theorem Tidy.refuse (h : r.Tidy) (hok : r.found = false) {q : Reader}
    (hrefuse : r.refuse = some q) : q.Tidy := by
  rw [Reader.refuse, Option.ite_none_right_eq_some] at hrefuse
  obtain ⟨hpc, hq⟩ := hrefuse
  cases hq
  have hblocked : r.blocked = false := by
    rw [h.blocked]
    rcases hpc with hpc | hpc <;> rw [hpc] <;> rfl
  have hnot : ¬ r.found = true := by simp [hok]
  have hquit : r.quit = false := by
    rw [← Bool.not_eq_true]
    exact fun hq => hnot (h.quit hq).1
  exact h.finish hblocked (.inr (.inr hquit)) nofun (fun hf => absurd hf hnot)
    (fun _ => ⟨nofun, nofun⟩) nofun

theorem Tidy.signal (h : r.Tidy) : r.signal.Tidy := by
  have hfits := h.fits
  have hblocked := h.blocked
  unfold Reader.signal
  split
  case h_1 hpc =>
    rw [hpc] at hfits hblocked
    exact h.goto hfits nofun nofun hblocked
  case h_2 => exact h

/-- A waker found the read. -/
theorem Tidy.find (h : r.Tidy) (hflag : r.blocked = true ∨ r.asleep = true) :
    Tidy { r with found := true } := by
  refine ⟨h.fits, fun hq => ⟨rfl, (h.quit hq).2⟩, fun _ => rfl, h.blocked, h.asleep, fun _ => ?_,
    h.only_found, h.woken⟩
  rcases hflag with hb | ha
  · have hfits := h.fits
    rw [h.blocked] at hb
    cases hpc : r.pc <;> simp only [hpc, Blocks, Bool.false_eq_true] at hb hfits
    case toWait => exact hfits
    case waiting => exact hfits
    case woken => exact hfits.1
  · exact (h.asleep ha).2 _

/-- The mark is set in a read that was found. -/
theorem Tidy.mark (h : r.Tidy) (hfound : r.found = true) (hpc : r.pc ≠ .idle) :
    Tidy { r with quit := true } :=
  ⟨h.fits, fun _ => ⟨hfound, hpc⟩, h.wakes, h.blocked, h.asleep, h.found, h.only_found, h.woken⟩

/-! ### Reads that were found

A read without a time limit must not be left waiting. -/

/-- A read without a time limit is in progress. -/
def Untimed (r : Reader) : Prop := r.call = .direct .sleep ∧ r.pc ≠ .idle

/-- It will see the mark without further help. -/
def Hears (r : Reader) : Prop :=
  r.pc = .clear ∨ r.quit = true ∧
    (r.pc = .waiting true ∨ (∃ status, r.pc = .woken status) ∨ ∃ status, r.pc = .status status)

/-- What a step keeps of what wakers know of an attachment. -/
structure Follows (r q : Reader) : Prop where
  serial : r.serial ≤ q.serial
  found : q.serial = r.serial → r.found = true → q.found = true
  untimed : q.serial = r.serial → q.Untimed → r.Untimed
  quit : q.serial = r.serial → q.Untimed → r.quit = true → q.quit = true

/-- A step within a read. -/
structure Proceeds (r q : Reader) : Prop where
  serial : q.serial = r.serial
  list : q.list = r.list
  found : q.found = r.found
  untimed : q.Untimed → r.Untimed
  quit : q.Untimed → q.quit = r.quit
  hears : q.Untimed → r.Hears → q.Hears

theorem Proceeds.follows {q : Reader} (h : r.Proceeds q) : r.Follows q :=
  ⟨h.serial.ge, fun _ hf => h.found.trans hf, fun _ => h.untimed,
    fun _ hu hq => (h.quit hu).trans hq⟩

theorem Proceeds.refl (r : Reader) : r.Proceeds r :=
  ⟨rfl, rfl, rfl, id, fun _ => rfl, fun _ => id⟩

@[simp]
theorem finish_serial (result : ReadResult) : (r.finish result).serial = r.serial := by
  unfold Reader.finish
  split <;> rfl

@[simp]
theorem finish_list (result : ReadResult) : (r.finish result).list = r.list := by
  unfold Reader.finish
  split <;> rfl

@[simp]
theorem finish_found (result : ReadResult) : (r.finish result).found = r.found := by
  unfold Reader.finish
  split <;> rfl

theorem not_untimed_finish (result : ReadResult) : ¬ (r.finish result).Untimed := by
  unfold Reader.finish
  split
  case h_1 hcall => exact fun h => nomatch hcall.symm.trans h.1
  case h_2 => exact fun h => nomatch h.1
  case h_3 hcall => exact fun h => nomatch hcall.symm.trans h.1
  case h_4 hcall _ => exact fun h => nomatch hcall.symm.trans h.1
  case h_5 => exact fun h => h.2 rfl

/-- A read without a time limit has ended, or it was not such a read. -/
theorem proceeds_of_not_untimed {q : Reader} (hserial : q.serial = r.serial)
    (hlist : q.list = r.list) (hfound : q.found = r.found) (h : ¬ q.Untimed) : r.Proceeds q :=
  ⟨hserial, hlist, hfound, fun hu => absurd hu h, fun hu => absurd hu h, fun hu => absurd hu h⟩

theorem proceeds_finish (result : ReadResult) : r.Proceeds (r.finish result) :=
  proceeds_of_not_untimed (finish_serial _) (finish_list _) (finish_found _)
    (not_untimed_finish _)

/-- The read goes on, and will see the mark if it would have seen it before. -/
theorem proceeds_goto {q : Reader} (hpc : r.pc ≠ .idle) (hcall : q.call = r.call)
    (hserial : q.serial = r.serial) (hlist : q.list = r.list) (hfound : q.found = r.found)
    (hquit : q.quit = r.quit) (hhears : r.Hears → q.Hears) : r.Proceeds q :=
  ⟨hserial, hlist, hfound, fun h => ⟨hcall.symm.trans h.1, hpc⟩, fun _ => hquit,
    fun _ => hhears⟩

theorem proceeds_go {q : Reader × WaitList} (hgo : r.go l = some q) : r.Proceeds q.1 := by
  unfold Reader.go at hgo
  cases hpc : r.pc <;> simp only [hpc] at hgo
  case idle => cases hgo
  case waiting => cases hgo
  case markSleep | toWait | clearSleep | between =>
    cases hgo
    exact proceeds_goto (by simp [hpc]) rfl rfl rfl rfl rfl (by simp [Hears, hpc])
  case testQuit =>
    split at hgo <;>
    · cases hgo
      exact proceeds_goto (by simp [hpc]) rfl rfl rfl rfl rfl (by simp [Hears, hpc])
  case lock | tryLock =>
    split at hgo
    · cases hgo
      exact proceeds_finish _
    · split at hgo
      · cases hgo
        exact proceeds_goto (by simp [hpc]) rfl rfl rfl rfl rfl (by simp [Hears, hpc])
      · cases hgo
        try exact proceeds_finish _
  case test =>
    split at hgo
    · cases hgo
      exact proceeds_goto (by simp [hpc]) rfl rfl rfl rfl rfl (by simp [Hears, hpc])
    · cases hgo
      exact proceeds_finish _
  case woken status =>
    cases hgo
    exact proceeds_goto (by simp [hpc]) rfl rfl rfl rfl rfl (by simp [Hears, hpc])
  case status status =>
    cases status with
    | ok =>
        simp only at hgo
        split at hgo
        · cases hgo
          exact proceeds_goto (by simp [hpc]) rfl rfl rfl rfl rfl (by simp [Hears])
        case isFalse hq =>
          cases hgo
          exact proceeds_goto (by simp [hpc]) rfl rfl rfl rfl rfl (by simp [Hears, hpc, hq])
    | timedOut =>
        cases hgo
        exact proceeds_finish _
    | failed =>
        cases hgo
        exact proceeds_finish _
  case clear =>
    cases hgo
    exact proceeds_of_not_untimed (finish_serial _) (finish_list _) (finish_found _)
      (not_untimed_finish _)
  case asyncQuit =>
    split at hgo <;>
    · cases hgo
      exact proceeds_goto (by simp [hpc]) rfl rfl rfl rfl rfl (by simp [Hears, hpc])
  case asyncCnt =>
    split at hgo <;>
    · cases hgo
      exact proceeds_finish _
  case clearQuit result =>
    cases hgo
    exact proceeds_of_not_untimed rfl rfl rfl fun h => h.2 rfl

theorem proceeds_wake {status : WaitStatus} {q : Reader × WaitList}
    (hwake : r.wake l status = some q) : r.Proceeds q.1 := by
  unfold Reader.wake at hwake
  split at hwake
  case h_1 hpc _ =>
    cases hwake
    exact proceeds_goto (by simp [hpc]) rfl rfl rfl rfl rfl (by simp +contextual [Hears, hpc])
  case h_2 hpc _ =>
    rw [Option.ite_none_right_eq_some] at hwake
    cases hwake.2
    exact proceeds_goto (by simp [hpc]) rfl rfl rfl rfl rfl (by simp +contextual [Hears, hpc])
  case h_3 => cases hwake

theorem proceeds_reject {q : Reader} (hreject : r.reject = some q) : r.Proceeds q := by
  rw [Reader.reject, Option.ite_none_right_eq_some] at hreject
  obtain ⟨⟨hpc, -⟩, hq⟩ := hreject
  cases hq
  exact proceeds_goto (by simp [hpc]) rfl rfl rfl rfl rfl (by simp +contextual [Hears, hpc])

theorem proceeds_refuse {q : Reader} (hrefuse : r.refuse = some q) : r.Proceeds q := by
  rw [Reader.refuse, Option.ite_none_right_eq_some] at hrefuse
  cases hrefuse.2
  exact proceeds_finish _

theorem proceeds_signal (r : Reader) : r.Proceeds r.signal := by
  unfold Reader.signal
  split
  case h_1 hpc =>
    exact proceeds_goto (by simp [hpc]) rfl rfl rfl rfl rfl (by simp +contextual [Hears, hpc])
  case h_2 => exact .refl r

theorem follows_start (call : ReadCall) (list num : ℕ) : r.Follows (r.start call list num) := by
  have hne : (r.start call list num).serial ≠ r.serial := Nat.succ_ne_self r.serial
  exact ⟨Nat.le_succ r.serial, fun h => absurd h hne, fun h => absurd h hne,
    fun h => absurd h hne⟩

theorem follows_find (r : Reader) : r.Follows { r with found := true } :=
  ⟨le_rfl, fun _ _ => rfl, fun _ => id, fun _ _ => id⟩

theorem follows_mark (r : Reader) : r.Follows { r with quit := true } :=
  ⟨le_rfl, fun _ => id, fun _ => id, fun _ _ _ => rfl⟩

/-- **A broadcast** reaches a marked read that waits, unless it is late. -/
theorem Tidy.hears_signal (h : r.Tidy) (hu : r.Untimed) (hquit : r.quit = true)
    (hlate : ¬ r.Late) : r.signal.Hears := by
  have hfits := h.fits
  have hnot : ∀ pc, r.pc = pc → pc ≠ .lock ∧ pc ≠ .test ∧ pc ≠ .toWait := by
    rintro pc rfl
    refine ⟨fun hpc => hlate ⟨hu.1, hquit, .inl hpc⟩, fun hpc => hlate ⟨hu.1, hquit, ?_⟩,
      fun hpc => hlate ⟨hu.1, hquit, ?_⟩⟩
    · exact .inr (.inl hpc)
    · exact .inr (.inr hpc)
  rw [hu.1] at hfits
  unfold Reader.signal
  cases hpc : r.pc <;> simp only [hpc, Fits] at hfits
  case idle => exact absurd hpc hu.2
  case lock => exact absurd rfl (hnot _ hpc).1
  case test => exact absurd rfl (hnot _ hpc).2.1
  case toWait => exact absurd rfl (hnot _ hpc).2.2
  case waiting => exact .inr ⟨hquit, .inl rfl⟩
  case woken status => exact .inr ⟨hquit, .inr (.inl ⟨status, hpc⟩)⟩
  case status status => exact .inr ⟨hquit, .inr (.inr ⟨status, hpc⟩)⟩
  case clear => exact .inl hpc
  all_goals simp at hfits

end Reader

namespace WakeState

/-- **Exact wake-ups**: a read returned `ET_ERROR_WAKEUP` only if it had been found; a read
that had been found returned that, or events, or its time was over; no mark outlives a read;
and a read that was found does not wait any longer when those who found it have finished. -/
structure Exact (s : WakeState) : Prop where
  only_found : ∀ a found, (s.att a).last = some (.wakeup, found) → found = true
  woken : ∀ a result, (s.att a).last = some (result, true) →
    result = .wakeup ∨ result = .ok ∨ result = .timeout
  no_mark : ∀ a, (s.att a).pc = .idle → (s.att a).quit = false
  not_lost : ∀ a, (s.att a).found = true → (s.att a).call = .direct .sleep →
    (s.att a).pc = .waiting false → ∃ w, (s.waker w).Pending a (s.att a)

/-! ### One step -/

variable {table : AttachTable} {s t : WakeState} {w a : ℕ}

end WakeState

/-- The attachment a waker is at. -/
def WakePc.target : WakePc → Option WakeTarget
  | .testBlocked target | .testSleep target | .mark target _ => some target
  | .idle | .scan _ _ | .castOwn _ | .castGrandCentral => none

/-- Having marked attachment `a`, the waker will broadcast the condition variable of its own
station, and GRAND_CENTRAL's; or it has only the latter left to do. -/
def WakePc.Serves (table : AttachTable) (a : ℕ) : WakePc → Prop
  | .idle => False
  | .scan station _ | .castOwn station => station = table.stat a
  | .testBlocked target | .testSleep target | .mark target _ =>
      ∃ i, target.next = some (table.stat a, i)
  | .castGrandCentral => True

/-- What a waker has found and marked. -/
structure Waker.Sound (table : AttachTable) (att : ℕ → Reader) (v : Waker) : Prop where
  target : ∀ target station i, v.pc.target = some target → target.next = some (station, i) →
    table.stat target.att = station
  found : ∀ target k, v.pc = .mark target (some k) → k ≤ (att target.att).serial ∧
    (k = (att target.att).serial → (att target.att).found = true)
  marked : ∀ a k, (a, k) ∈ v.marked → v.pc.Serves table a ∧ k ≤ (att a).serial ∧
    (k = (att a).serial → (att a).Untimed → (att a).quit = true)

/-- **The invariant.** -/
structure WakeState.Inv (table : AttachTable) (s : WakeState) : Prop where
  tidy : ∀ a, (s.att a).Tidy
  list : ∀ a, (s.att a).list = table.stat a ∨ (s.att a).list = 0
  sound : ∀ w, (s.waker w).Sound table s.att
  heard : ∀ a, (s.att a).found = true → (s.att a).Untimed →
    (∃ w, (s.waker w).Pending a (s.att a)) ∨ (s.att a).Hears

namespace WakeState

variable {table : AttachTable} {s t : WakeState} {w a : ℕ}

theorem inv_initial (list : ℕ → WaitList) : (initial list).Inv table where
  tidy _ := Reader.tidy_init
  list _ := .inr rfl
  sound _ := ⟨nofun, nofun, nofun⟩
  heard _ := nofun

/-- Wakers know what they knew after a step of an attachment. -/
theorem sound_follows {v : Waker} (h : v.Sound table s.att)
    (hfollows : ∀ a, (s.att a).Follows (t.att a)) : v.Sound table t.att where
  target := h.target
  found target k hpc := by
    obtain ⟨hle, hfound⟩ := h.found target k hpc
    have hf := hfollows target.att
    refine ⟨hle.trans hf.serial, fun hk => ?_⟩
    have hserial : (t.att target.att).serial = (s.att target.att).serial :=
      le_antisymm (hk ▸ hle) hf.serial
    exact hf.found hserial (hfound (hk.trans hserial))
  marked a k hmem := by
    obtain ⟨hserves, hle, hquit⟩ := h.marked a k hmem
    have hf := hfollows a
    refine ⟨hserves, hle.trans hf.serial, fun hk hu => ?_⟩
    have hserial : (t.att a).serial = (s.att a).serial := le_antisymm (hk ▸ hle) hf.serial
    exact hf.quit hserial hu (hquit (hk.trans hserial) (hf.untimed hserial hu))

/-- A waker's duties do not depend on how far the read is. -/
theorem pending_congr {v : Waker} {r q : Reader} (hserial : q.serial = r.serial)
    (hlist : q.list = r.list) : v.Pending a q ↔ v.Pending a r := by
  simp only [Waker.Pending, hserial, hlist]

/-- **A step within the reads** keeps the invariant. -/
theorem Inv.proceeds (h : s.Inv table) (hwaker : t.waker = s.waker)
    (htidy : ∀ a, (t.att a).Tidy) (hproceeds : ∀ a, (s.att a).Proceeds (t.att a)) :
    t.Inv table where
  tidy := htidy
  list a := by
    rw [(hproceeds a).list]
    exact h.list a
  sound w := by
    rw [hwaker]
    exact sound_follows (h.sound w) fun a => (hproceeds a).follows
  heard a hfound hu := by
    have hp := hproceeds a
    rcases h.heard a (hp.found.symm.trans hfound) (hp.untimed hu) with ⟨w, hw⟩ | hhears
    · rw [hwaker]
      exact .inl ⟨w, (pending_congr hp.serial hp.list).mpr hw⟩
    · exact .inr (hp.hears hu hhears)

/-- What holds of every attachment but one, and of that one after a step, holds of all. -/
theorem forall_update {P : ℕ → Reader → Prop} {q : Reader} (ht : t.att = Function.update s.att a q)
    (hq : P a q) (hs : ∀ b ≠ a, P b (s.att b)) (b : ℕ) : P b (t.att b) := by
  rw [ht]
  rcases eq_or_ne b a with rfl | hb
  · rw [Function.update_self]
    exact hq
  · rw [Function.update_of_ne hb]
    exact hs b hb

/-- One attachment makes a step within its read. -/
theorem Inv.update (h : s.Inv table) {q : Reader} (ht : t.att = Function.update s.att a q)
    (hwaker : t.waker = s.waker) (htidy : q.Tidy) (hproceeds : (s.att a).Proceeds q) :
    t.Inv table :=
  h.proceeds hwaker (forall_update (P := fun _ r => r.Tidy) ht htidy fun b _ => h.tidy b)
    (forall_update (P := fun b r => (s.att b).Proceeds r) ht hproceeds fun _ _ => .refl _)

/-- A read begins; nobody has found it yet. -/
theorem Inv.start (h : s.Inv table) (hpc : (s.att a).pc = .idle) {list : ℕ}
    (hlist : list = table.stat a ∨ list = 0) (call : ReadCall) (num : ℕ) :
    (s.setAtt a ((s.att a).start call list num)).Inv table where
  tidy := forall_update rfl ((h.tidy a).start hpc call list num) fun b _ => h.tidy b
  list := forall_update (P := fun b r => r.list = table.stat b ∨ r.list = 0) rfl hlist
    fun b _ => h.list b
  sound w := sound_follows (h.sound w) (forall_update (P := fun b r => (s.att b).Follows r) rfl
    (Reader.follows_start call list num) fun _ _ => (Reader.Proceeds.refl _).follows)
  heard := forall_update (P := fun b r => r.found = true → r.Untimed →
      (∃ w, (s.waker w).Pending b r) ∨ r.Hears) rfl
    (fun hfound => absurd hfound Bool.false_ne_true) fun b _ => h.heard b

/-- **A step of waker `w`**, which moves to `v`. -/
theorem Inv.waker (h : s.Inv table) {v : Waker} (hwaker : t.waker = Function.update s.waker w v)
    (htidy : ∀ a, (t.att a).Tidy) (hlist : ∀ a, (t.att a).list = (s.att a).list)
    (hserial : ∀ a, (t.att a).serial = (s.att a).serial)
    (hfollows : ∀ a, (s.att a).Follows (t.att a)) (hsound : v.Sound table t.att)
    (hheard : ∀ a, (t.att a).found = true → (t.att a).Untimed → v.Pending a (t.att a) ∨
      (s.att a).found = true ∧ ((s.att a).Hears → (t.att a).Hears) ∧
        ((s.waker w).Pending a (s.att a) → v.Pending a (t.att a) ∨ (t.att a).Hears)) :
    t.Inv table where
  tidy := htidy
  list a := by
    rw [hlist]
    exact h.list a
  sound w' := by
    rw [hwaker]
    rcases eq_or_ne w' w with rfl | hw
    · rw [Function.update_self]
      exact hsound
    · rw [Function.update_of_ne hw]
      exact sound_follows (h.sound w') hfollows
  heard a hfound hu := by
    have hself : t.waker w = v := by rw [hwaker, Function.update_self]
    rcases hheard a hfound hu with hv | ⟨hf, hhears, hpending⟩
    · exact .inl ⟨w, hself ▸ hv⟩
    · rcases h.heard a hf ((hfollows a).untimed (hserial a) hu) with ⟨w', hw'⟩ | hh
      · rcases eq_or_ne w' w with rfl | hw
        · exact (hpending hw').imp_left fun hv => ⟨w', hself ▸ hv⟩
        · refine .inl ⟨w', ?_⟩
          rw [hwaker, Function.update_of_ne hw]
          exact (pending_congr (hserial a) (hlist a)).mpr hw'
      · exact .inr (hhears hh)

/-- A waker that has nothing to mark and goes on. -/
theorem Inv.wakerGoto (h : s.Inv table) {pc : WakePc}
    (hmark : ∀ target k, (s.waker w).pc ≠ .mark target (some k))
    (hnomark : ∀ target k, pc ≠ .mark target (some k))
    (htarget : ∀ target station i, pc.target = some target →
      target.next = some (station, i) → table.stat target.att = station)
    (hserves : ∀ a, (s.waker w).pc.Serves table a →
      pc.Serves table a ∧ (pc = .castGrandCentral → (s.waker w).pc = .castGrandCentral)) :
    (s.setWaker w { s.waker w with pc := pc }).Inv table := by
  have hmarked := (h.sound w).marked
  refine h.waker rfl h.tidy (fun _ => rfl) (fun _ => rfl)
    (fun _ => (Reader.Proceeds.refl _).follows)
    ⟨htarget, fun target k hpc => absurd hpc (hnomark target k), fun a k hmem => ?_⟩
    fun a hfound _ => .inr ⟨hfound, id, ?_⟩
  · exact ⟨(hserves a (hmarked a k hmem).1).1, (hmarked a k hmem).2⟩
  · rintro (⟨target, -, hpc⟩ | ⟨hmem, hlist⟩)
    · exact absurd hpc (hmark target _)
    · exact .inl (.inr ⟨hmem, fun hpc => hlist ((hserves a (hmarked a _ hmem).1).2 hpc)⟩)

/-- A waker finds a flag set. -/
theorem Inv.find (h : s.Inv table) {target : WakeTarget} {own : Bool}
    (hpc : (s.waker w).pc = .testBlocked target ∨ (s.waker w).pc = .testSleep target)
    (hown : own = true → (s.att target.att).blocked = true ∨ (s.att target.att).asleep = true) :
    (s.find w target own).Inv table := by
  have hsound := h.sound w
  have hnomark : ∀ target k, (s.waker w).pc ≠ .mark target (some k) := by
    rcases hpc with hpc | hpc <;> rw [hpc] <;> exact nofun
  have hcast : (s.waker w).pc ≠ .castGrandCentral := by
    rcases hpc with hpc | hpc <;> rw [hpc] <;> exact nofun
  have htarget : (s.waker w).pc.target = some target := by
    rcases hpc with hpc | hpc <;> rw [hpc] <;> rfl
  have hserves : ∀ a found, (s.waker w).pc.Serves table a →
      WakePc.Serves table a (.mark target found) := by
    intro a found
    rcases hpc with hpc | hpc <;> rw [hpc] <;> exact id
  have hstation : ∀ target' station i, some target = some target' →
      target'.next = some (station, i) → table.stat target'.att = station :=
    fun target' station i heq => hsound.target target' station i (htarget.trans heq)
  unfold WakeState.find
  split
  case isFalse =>
    exact h.wakerGoto hnomark (fun _ _ heq => nomatch heq) hstation
      fun a ha => ⟨hserves a none ha, fun heq => nomatch heq⟩
  case isTrue howned =>
    have hfollows : ∀ a, (s.att a).Follows
        (Function.update s.att target.att { s.att target.att with found := true } a) :=
      forall_update (t := s.setAtt target.att _) (P := fun b r => (s.att b).Follows r) rfl
        (Reader.follows_find _) fun _ _ => (Reader.Proceeds.refl _).follows
    have hsound' := sound_follows (t := s.setAtt target.att { s.att target.att with found := true })
      hsound hfollows
    refine h.waker (s := s) rfl
      (forall_update (P := fun _ r => r.Tidy) rfl ((h.tidy _).find (hown howned))
        fun b _ => h.tidy b)
      (forall_update (P := fun b r => r.list = (s.att b).list) rfl rfl fun _ _ => rfl)
      (forall_update (P := fun b r => r.serial = (s.att b).serial) rfl rfl fun _ _ => rfl)
      hfollows ⟨hstation, ?_, fun a k hmem => ?_⟩ fun a hfound hu => ?_
    · intro target' k heq
      cases heq
      simp [setWaker, setAtt]
    · exact ⟨hserves a _ (hsound'.marked a k hmem).1, (hsound'.marked a k hmem).2⟩
    · rcases eq_or_ne a target.att with rfl | ha
      · exact .inl (.inl ⟨target, rfl, by simp [setWaker, setAtt]⟩)
      · refine .inr ⟨by simpa [setWaker, setAtt, ha] using hfound,
          by simp [setWaker, setAtt, ha], ?_⟩
        rintro (⟨target', -, hpc'⟩ | ⟨hmem, -⟩)
        · exact absurd hpc' (hnomark target' _)
        · exact .inl (.inr ⟨by simpa [setWaker, setAtt, ha] using hmem, nofun⟩)

/-- A waker sets the mark in the read it found. -/
theorem Inv.mark (h : s.Inv table) {target : WakeTarget} {k : ℕ}
    (hpc : (s.waker w).pc = .mark target (some k)) (hk : k = (s.att target.att).serial)
    (hidle : (s.att target.att).pc ≠ .idle) :
    (s.mark table w target (some k)).Inv table := by
  have hsound := h.sound w
  obtain ⟨-, hfound⟩ := hsound.found target k hpc
  have hafter : ∀ station, (target.after (.castOwn station)).target = none ∧
      target.after (.castOwn station) ≠ .castGrandCentral ∧
      ∀ target' k', target.after (.castOwn station) ≠ .mark target' k' := by
    intro station
    unfold WakeTarget.after
    split <;> exact ⟨rfl, nofun, nofun⟩
  have hfollows : ∀ a, (s.att a).Follows
      (Function.update s.att target.att { s.att target.att with quit := true } a) :=
    forall_update (t := s.setAtt target.att _) (P := fun b r => (s.att b).Follows r) rfl
      (Reader.follows_mark _) fun _ _ => (Reader.Proceeds.refl _).follows
  have hsound' := sound_follows (t := s.setAtt target.att { s.att target.att with quit := true })
    hsound hfollows
  refine h.waker (s := s) rfl
    (forall_update (P := fun _ r => r.Tidy) rfl ((h.tidy _).mark (hfound hk) hidle)
      fun b _ => h.tidy b)
    (forall_update (P := fun b r => r.list = (s.att b).list) rfl rfl fun _ _ => rfl)
    (forall_update (P := fun b r => r.serial = (s.att b).serial) rfl rfl fun _ _ => rfl)
    hfollows ⟨?_, ?_, fun a k' hmem => ?_⟩ fun a hf hu => ?_
  · intro target' station i heq
    exact absurd ((hafter _).1.symm.trans heq) (by simp)
  · intro target' k' heq
    exact absurd heq ((hafter _).2.2 target' _)
  · rcases List.mem_append.mp hmem with hnew | hold
    · obtain ⟨rfl, rfl⟩ : a = target.att ∧ k' = k := by simpa using hnew
      refine ⟨?_, by simp [WakeState.mark, setWaker, setAtt, hk], fun _ _ => by simp [WakeState.mark, setWaker, setAtt]⟩
      unfold WakeTarget.after
      split
      case h_1 => rfl
      case h_2 station i hnext =>
        exact (hsound.target target station i (by rw [hpc]; rfl) hnext).symm
    · obtain ⟨hserves, hrest⟩ := hsound'.marked a k' hold
      refine ⟨?_, hrest⟩
      rw [hpc] at hserves
      obtain ⟨i, hnext⟩ := hserves
      unfold WakeTarget.after
      rw [hnext]
      rfl
  · rcases eq_or_ne a target.att with rfl | ha
    · refine .inl (.inr ⟨?_, fun heq => absurd heq (hafter _).2.1⟩)
      simp [WakeState.mark, setWaker, setAtt, hk]
    · refine .inr ⟨by simpa [WakeState.mark, setWaker, setAtt, ha] using hf, by simp [WakeState.mark, setWaker, setAtt, ha], ?_⟩
      rintro (⟨target', rfl, hpc'⟩ | ⟨hmem, -⟩)
      · rw [hpc] at hpc'
        cases hpc'
        exact absurd rfl ha
      · refine .inl (.inr ⟨?_, fun heq => absurd heq (hafter _).2.1⟩)
        simpa [WakeState.mark, setWaker, setAtt, ha] using hmem

/-- **A broadcast** on list `l` by a waker that then has only `pc` left to do. -/
theorem Inv.broadcast (h : s.Inv table) {l : ℕ} {v : Waker}
    (hlate : s.InTime w l)
    (hnomark : ∀ target k, (s.waker w).pc ≠ .mark target (some k))
    (hpc : v.pc.target = none)
    (hmarked : ∀ a k, (a, k) ∈ v.marked → (a, k) ∈ (s.waker w).marked ∧ v.pc.Serves table a)
    (hleft : ∀ a k, (a, k) ∈ (s.waker w).marked → (s.att a).list ≠ l →
      ((s.waker w).pc = .castGrandCentral → (s.att a).list = 0) →
      (a, k) ∈ v.marked ∧ (v.pc = .castGrandCentral → (s.att a).list = 0)) :
    ((s.broadcast l).setWaker w v).Inv table := by
  have hsound := h.sound w
  have hatt : ∀ {P : Reader → Prop} a, P (s.att a) → P (s.att a).signal →
      P ((s.broadcast l).att a) := by
    intro P a hkeep hsignal
    unfold WakeState.broadcast
    dsimp only
    split
    · exact hsignal
    · exact hkeep
  have hproceeds : ∀ a, (s.att a).Proceeds ((s.broadcast l).att a) :=
    fun a => hatt (P := fun r => (s.att a).Proceeds r) a (.refl _) (Reader.proceeds_signal _)
  have hfollows : ∀ a, (s.att a).Follows ((s.broadcast l).att a) := fun a => (hproceeds a).follows
  have hsound' := sound_follows (t := s.broadcast l) hsound hfollows
  refine h.waker rfl (fun a => hatt (P := fun r => r.Tidy) a (h.tidy a) (h.tidy a).signal)
    (fun a => (hproceeds a).list) (fun a => (hproceeds a).serial) hfollows
    ⟨fun target _ _ heq => ?_, fun target k heq => ?_, fun a k hmem => ?_⟩ fun a hfound hu => ?_
  · exact absurd (hpc.symm.trans heq) (by simp)
  · rw [heq] at hpc
    cases hpc
  · exact ⟨(hmarked a k hmem).2, (hsound'.marked a k (hmarked a k hmem).1).2⟩
  · refine .inr ⟨(hproceeds a).found.symm.trans hfound, (hproceeds a).hears hu, ?_⟩
    rintro (⟨target, -, heq⟩ | ⟨hmem, hlist⟩)
    · exact absurd heq (hnomark target _)
    · by_cases hl : (s.att a).list = l
      · -- the mark is set, so the broadcast reaches the read
        have hold := (hproceeds a).untimed hu
        have hquit := (hsound.marked a _ hmem).2.2 rfl hold
        have hreach : (s.broadcast l).att a = (s.att a).signal := if_pos hl
        refine .inr ?_
        show ((s.broadcast l).att a).Hears
        rw [hreach]
        exact (h.tidy a).hears_signal hold hquit (hlate _ hmem rfl hl)
      · have hsame : (s.broadcast l).att a = s.att a := if_neg hl
        refine .inl ?_
        show v.Pending a ((s.broadcast l).att a)
        rw [hsame]
        exact .inr (hleft a _ hmem hl hlist)

/-- **A timely step of a waker** keeps the invariant. -/
theorem Inv.wakerGo (h : s.Inv table) (hok : s.Timely (.wakerGo w))
    (hstep : s.wakerGo table w = some t) : t.Inv table := by
  have hsound := h.sound w
  unfold WakeState.wakerGo at hstep
  simp only [Timely] at hok
  cases hpc : (s.waker w).pc <;> simp only [hpc, WakerTimely] at hstep hok
  case idle => cases hstep
  case scan station i =>
    split at hstep
    · split at hstep
      · cases hstep
        exact h.wakerGoto (by simp [hpc]) nofun nofun fun a ha =>
          ⟨by rw [hpc] at ha; exact ha, nofun⟩
      case h_2 a hatt =>
        cases hstep
        refine h.wakerGoto (by simp [hpc]) nofun ?_ fun a ha => ⟨?_, nofun⟩
        · rintro target station' i' ⟨⟩ ⟨⟩
          exact table.registered _ _ _ hatt
        · rw [hpc] at ha
          exact ⟨i + 1, by rw [show station = _ from ha]⟩
    · cases hstep
      exact h.wakerGoto (by simp [hpc]) nofun nofun fun a ha =>
        ⟨by rw [hpc] at ha; exact ha, nofun⟩
  case testBlocked target =>
    split at hstep
    case isTrue hblocked =>
      cases hstep
      exact h.find (.inl hpc) fun _ => .inl hblocked
    case isFalse =>
      cases hstep
      refine h.wakerGoto (by simp [hpc]) nofun ?_ fun a ha => ⟨by rw [hpc] at ha; exact ha, nofun⟩
      exact fun target' station i heq => hsound.target target' station i (by rw [hpc]; exact heq)
  case testSleep target =>
    split at hstep
    · cases hstep
      exact h.find (.inr hpc) .inr
    · cases hstep
      unfold WakeTarget.after
      split
      case h_1 hnext =>
        refine h.wakerGoto (by simp [hpc]) nofun nofun fun a ha => ?_
        rw [hpc] at ha
        obtain ⟨i, hi⟩ := ha
        exact absurd (hnext.symm.trans hi) (by simp)
      case h_2 station i hnext =>
        refine h.wakerGoto (by simp [hpc]) nofun nofun fun a ha => ⟨?_, nofun⟩
        rw [hpc] at ha
        obtain ⟨i', hi⟩ := ha
        exact (Prod.mk.inj (Option.some.inj (hnext.symm.trans hi))).1
  case mark target found =>
    cases hstep
    obtain ⟨rfl, hidle⟩ := hok
    exact h.mark hpc rfl hidle
  case castOwn station =>
    cases hstep
    refine h.broadcast hok (by simp [hpc]) rfl (fun a k hmem => ⟨hmem, trivial⟩) ?_
    intro a k hmem hl _
    have hserves := (hsound.marked a k hmem).1
    rw [hpc] at hserves
    refine ⟨hmem, fun _ => (h.list a).resolve_left ?_⟩
    rw [← show station = _ from hserves]
    exact hl
  case castGrandCentral =>
    cases hstep
    exact h.broadcast hok (by simp [hpc]) rfl nofun
      fun a k _ hl hlist => absurd (hlist hpc) hl

/-- **A timely step** keeps the invariant. -/
theorem Inv.step {act : WakeAct} (h : s.Inv table) (hok : s.Timely act)
    (hstep : s.step table act = some t) : t.Inv table := by
  cases act with
  | start a call list num =>
      rw [WakeState.step, Option.ite_none_right_eq_some] at hstep
      obtain ⟨⟨hpc, hlist⟩, hstep⟩ := hstep
      cases hstep
      exact h.start hpc hlist call num
  | go a =>
      rw [WakeState.step, Option.map_eq_some_iff] at hstep
      obtain ⟨q, hq, rfl⟩ := hstep
      exact h.update rfl rfl ((h.tidy a).go hok hq) (Reader.proceeds_go hq)
  | wake a status =>
      rw [WakeState.step, Option.map_eq_some_iff] at hstep
      obtain ⟨q, hq, rfl⟩ := hstep
      exact h.update rfl rfl ((h.tidy a).wake hq) (Reader.proceeds_wake hq)
  | reject a =>
      rw [WakeState.step, Option.map_eq_some_iff] at hstep
      obtain ⟨q, hq, rfl⟩ := hstep
      exact h.update rfl rfl ((h.tidy a).reject hq) (Reader.proceeds_reject hq)
  | refuse a =>
      rw [WakeState.step, Option.map_eq_some_iff] at hstep
      obtain ⟨q, hq, rfl⟩ := hstep
      exact h.update rfl rfl ((h.tidy a).refuse hok hq) (Reader.proceeds_refuse hq)
  | lock l =>
      rw [WakeState.step, Option.ite_none_right_eq_some] at hstep
      cases hstep.2
      exact h.proceeds rfl h.tidy fun _ => .refl _
  | unlock l cnt =>
      rw [WakeState.step, Option.ite_none_right_eq_some] at hstep
      cases hstep.2
      exact h.proceeds rfl h.tidy fun _ => .refl _
  | wakeupAttachment w a =>
      rw [WakeState.step, Option.ite_none_right_eq_some] at hstep
      obtain ⟨hpc, hstep⟩ := hstep
      cases hstep
      refine h.wakerGoto (by simp [hpc]) nofun ?_ fun a ha => ?_
      · rintro target station i ⟨⟩ ⟨⟩
      · rw [hpc] at ha
        exact ha.elim
  | wakeupAll w station =>
      rw [WakeState.step, Option.ite_none_right_eq_some] at hstep
      obtain ⟨hpc, hstep⟩ := hstep
      cases hstep
      refine h.wakerGoto (by simp [hpc]) nofun nofun fun a ha => ?_
      rw [hpc] at ha
      exact ha.elim
  | wakerGo w => exact h.wakerGo hok hstep

/-- The invariant has it that wake-ups are exact. -/
theorem Inv.exact (h : s.Inv table) : s.Exact where
  only_found a := (h.tidy a).only_found
  woken a := (h.tidy a).woken
  no_mark a hpc := by
    rw [← Bool.not_eq_true]
    exact fun hq => ((h.tidy a).quit hq).2 hpc
  not_lost a hfound hcall hpc := by
    have hu : (s.att a).Untimed := ⟨hcall, by simp [hpc]⟩
    refine (h.heard a hfound hu).resolve_right ?_
    simp [Reader.Hears, hpc]

end WakeState

/-! ### Whole runs -/

/-- **Wake-ups hit exactly the reads in progress**, in every state of every timely run. -/
theorem wakeUps_exact {table : AttachTable} {s : WakeState}
    (run : (wakeUps table).Reach WakeState.Timely s) : s.Exact := by
  have hinv : s.Inv table := by
    refine run.invariant ?_ fun s a t h hok hstep => h.step hok hstep
    rintro s ⟨list, rfl⟩
    exact WakeState.inv_initial list
  exact hinv.exact

/-- Attachment `0` at station `1`. -/
def oneReader : AttachTable where
  stat _ := 1
  att station i := if station = 1 ∧ i = 0 then some 0 else none
  nattachments := 1
  registered := by
    intro station i a h
    split at h
    case isTrue hs => exact hs.1.symm
    case isFalse => cases h

/-- The list of station `1` has one event, that of GRAND_CENTRAL has none. -/
def oneEvent : WakeState := .initial fun l => ⟨l, .free⟩

/-- `et_wakeup_attachment` from its first test to its last broadcast. -/
def wakeupNow : List WakeAct :=
  [.wakeupAttachment 0 0, .wakerGo 0, .wakerGo 0, .wakerGo 0, .wakerGo 0]

/-- An attachment that waits for new events is woken. -/
theorem wakeUps_exact_example :
    ∃ s, (wakeUps oneReader).Reach WakeState.Timely s ∧
      (s.att 0).last = some (.wakeup, true) ∧ s.Exact := by
  have hrun : ((Machine.runActs (WakeState.step oneReader) WakeState.Timely
      ([.start 0 (.direct .sleep) 0 1, .go 0, .go 0, .go 0] ++ wakeupNow ++
        [.wake 0 .ok, .go 0, .go 0, .go 0]) oneEvent).map fun s => (s.att 0).last) =
      some (some (.wakeup, true)) := by decide
  obtain ⟨s, hs, hlast⟩ := Option.map_eq_some_iff.mp hrun
  have run : (wakeUps oneReader).Reach WakeState.Timely s :=
    Machine.reach_of_runActs (.start ⟨_, rfl⟩) hs
  exact ⟨s, run, hlast, wakeUps_exact run⟩

/-- **A read is woken that was not there.**  A remote client's timed read returns an event;
`sleep` stays set, so that a wake-up marks the attachment although it does not read.  The next
read finds the mark. -/
theorem wakeUp_hits_later_read :
    ∃ s, (wakeUps oneReader).Reach (fun _ _ => True) s ∧
      (s.att 0).last = some (.wakeup, false) ∧ ¬ s.Exact := by
  have hrun : ((Machine.runActs (WakeState.step oneReader) (fun _ _ => True)
      ([.start 0 (.timedRequests (some 0)) 1 1, .go 0, .go 0, .go 0, .go 0] ++ wakeupNow ++
        [.wakerGo 0, .start 0 (.direct .async) 1 1, .go 0, .go 0, .go 0]) oneEvent).map
          fun s => (s.att 0).last) = some (some (.wakeup, false)) := by decide
  obtain ⟨s, hs, hlast⟩ := Option.map_eq_some_iff.mp hrun
  refine ⟨s, Machine.reach_of_runActs (.start ⟨_, rfl⟩) hs, hlast, fun h => ?_⟩
  exact Bool.false_ne_true (h.only_found 0 false hlast)

end EventTransfer
