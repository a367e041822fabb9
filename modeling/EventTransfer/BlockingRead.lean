import EventTransfer.PriorityMerge
import EventTransfer.WakeUp

/-!
# Reads that wait for events

`et_station_read`, `et_station_nread` and `et_station_nread_group` from the call to the return:
they take the mutex of an input list, wait until there are events, take some and give the
mutex back.  `et_station_nread_group` starts anew when it has found none of its group.

What the rest of the world does is an argument of these functions (`Look`): what the thread
library returns each time it is called, and what other processes have made by then of the list
and of the attachment's `quit` flag.  `none` says that the read has not returned with these
answers, or that the process has ended itself with `err_abort`.

* `Look.found` — the list that the events are taken from.
* `Look.waitFails` — a timed wait ends with an error.  The readers take it for the end of the
  call, and forget the mutex.
* `groupScans` — the lists that `et_station_nread_group` scans.
-/

namespace EventTransfer

open StoreProgram StoreProgram.Prog

/-! ## The readers -/

/-- What `pthread_mutex_lock` and `pthread_mutex_trylock` return: zero, `EBUSY`, or another
error number. -/
inductive LockStatus
  | ok
  | busy
  | failed
  deriving DecidableEq, Repr

/-- The end of a wait: what the wait returned, and the list and `quit` as they are then. -/
structure WaitEnd where
  status : WaitStatus
  m : InMem
  quit : Bool

/-- **What a reader meets** from its lock of the list on: what the lock returned, the list and
`quit` as they are then, and the ends of the waits that follow. -/
structure Look where
  lock : LockStatus
  m : InMem
  quit : Bool
  waits : List WaitEnd

/-- What a reader reads and writes: the input list and its mutex, the flags of the attachment,
and the system's histogram of the lengths of GRAND_CENTRAL's list. -/
structure Reading where
  m : InMem
  locked : Bool
  quit : Bool
  blocked : Bool
  histogram : ℕ → ℕ

namespace Reading

/-- The list is locked. -/
def lock (s : Reading) (look : Look) : Reading :=
  { s with m := look.m, quit := look.quit, locked := true }

/-- The unlock. -/
def unlock (s : Reading) : Reading := { s with locked := false }

/-- The unlock, with `sys->attach[att].quit = ET_ATT_CONTINUE`. -/
def wakeUp (s : Reading) : Reading := { s with locked := false, quit := false }

/-- `*(id->histogram + pl->cnt) += 1`, if `c` holds. -/
def countIf (c : Bool) (s : Reading) : Reading :=
  if c then
    { s with histogram := Function.update s.histogram s.m.pl.cnt (s.histogram s.m.pl.cnt + 1) }
  else s

@[simp] theorem countIf_m (c : Bool) (s : Reading) : (s.countIf c).m = s.m := by
  cases c <;> rfl

@[simp] theorem countIf_locked (c : Bool) (s : Reading) : (s.countIf c).locked = s.locked := by
  cases c <;> rfl

/-- The loop "`while (pl->cnt < 1 || !scanList)`".  It ends with `ET_OK` and the mutex held when
there are events to take. -/
def waitLoop (timed : Bool) : Bool → Reading → List WaitEnd → Option (Ret × Reading)
  | scanList, s, [] => if s.m.pl.cnt < 1 ∨ scanList = false then none else some (.ok, s)
  | scanList, s, t :: ts =>
      if s.m.pl.cnt < 1 ∨ scanList = false then
        let s := { s with m := t.m, quit := t.quit, blocked := false }
        if timed = true ∧ t.status = .timedOut then
          some (.errorTimeout, s.unlock)
        else if t.status ≠ .ok then
          -- "most likely a bad value for the time"; without a time it is an abort
          if timed then some (.error, s) else none
        else if s.quit then some (.errorWakeup, s.wakeUp)
        else waitLoop timed true s ts
      else some (.ok, s)

/-- The first part of the readers, up to the point where there are events to take: the return
code, which is `ET_OK` at that point.  `gc` says that the station is GRAND_CENTRAL; `none` as a
mode is any other number. -/
def getReady (gc scanList : Bool) (s : Reading) (look : Look) :
    Option WaitMode → Option (Ret × Reading)
  | some .async =>
      if look.lock = .busy then some (.errorBusy, { s with m := look.m, quit := look.quit })
      else if look.lock = .failed then none
      else if look.quit then some (.errorWakeup, (s.lock look).wakeUp)
      else
        let t := (s.lock look).countIf gc
        if t.m.pl.cnt < 1 then some (.errorEmpty, t.unlock) else some (.ok, t)
  | some mode =>
      if look.lock ≠ .ok then none
      else waitLoop (mode = .timed) scanList ((s.lock look).countIf (gc && scanList)) look.waits
  | none => some (.error, s)

/-- The second part: the events are taken, and the mutex is given back. -/
def handOut (att : ℤ) (r : StationRead) (s : Reading) : List ℕ × Reading :=
  (value (r.program att) s.m, { s with m := final (r.program att) s.m, locked := false })

/-- A reader that takes the events it finds. -/
def readOnce (att : ℤ) (gc : Bool) (mode : Option WaitMode) (r : StationRead) (s : Reading)
    (look : Look) : Option (Ret × List ℕ × Reading) :=
  (getReady gc true s look mode).map fun p =>
    if p.1 = .ok then (.ok, p.2.handOut att r) else (p.1, [], p.2)

/-- `et_station_read`: the return code, the events handed out, and what the read leaves. -/
def etStationRead (s : Reading) (att : ℤ) (gc : Bool) (mode : Option WaitMode) (look : Look) :
    Option (Ret × List ℕ × Reading) :=
  readOnce att gc mode .read s look

/-- `et_station_nread`. -/
def etStationNread (s : Reading) (att : ℤ) (gc : Bool) (mode : Option WaitMode) (num : ℕ)
    (look : Look) : Option (Ret × List ℕ × Reading) :=
  if num < 1 then some (.ok, [], s) else readOnce att gc mode (.nread num) s look

/-- The loop of `et_station_nread_group`; there is one `Look` for each time around.  The number
of events wanted is cut to the length of the list, and stays cut. -/
def nreadGroupPasses (att : ℤ) (gc : Bool) (mode : Option WaitMode) (group : ℕ) :
    ℕ → Bool → Reading → List Look → Option (Ret × List ℕ × Reading)
  | _, _, _, [] => none
  | num, scanList, s, look :: looks =>
      (getReady gc scanList s look mode).bind fun p =>
        if p.1 ≠ .ok then some (p.1, [], p.2)
        else
          let num := min num p.2.m.pl.cnt
          let out := p.2.handOut att (.nreadGroup num group)
          if out.1 = [] ∧ mode ≠ some .async then
            nreadGroupPasses att gc mode group num false out.2 looks
          else some (.ok, out)

/-- `et_station_nread_group`. -/
def etStationNreadGroup (s : Reading) (att : ℤ) (gc : Bool) (mode : Option WaitMode)
    (num group : ℕ) (looks : List Look) : Option (Ret × List ℕ × Reading) :=
  if num < 1 then some (.ok, [], s) else nreadGroupPasses att gc mode group num true s looks

end Reading

/-! ## How the waiting ends -/

namespace Look

/-- The list at the end of the loop, where it ends with events to take. -/
def foundLoop : Bool → InMem → List WaitEnd → Option InMem
  | scanList, m, [] => if m.pl.cnt < 1 ∨ scanList = false then none else some m
  | scanList, m, t :: ts =>
      if m.pl.cnt < 1 ∨ scanList = false then
        if t.status = .ok ∧ t.quit = false then foundLoop true t.m ts else none
      else some m

/-- The loop comes to a wait that ends with an error. -/
def failsLoop : Bool → InMem → List WaitEnd → Bool
  | _, _, [] => false
  | scanList, m, t :: ts =>
      (m.pl.cnt < 1 || !scanList) &&
        (t.status = .failed || t.status = .ok && !t.quit && failsLoop true t.m ts)

/-- **The list that events are taken from**, if it comes to that. -/
def found (scanList : Bool) (look : Look) : Option WaitMode → Option InMem
  | some .async =>
      if look.lock = .ok ∧ look.quit = false ∧ 1 ≤ look.m.pl.cnt then some look.m else none
  | some _ => if look.lock = .ok then foundLoop scanList look.m look.waits else none
  | none => none

/-- **A timed wait ends with an error.** -/
def waitFails (scanList : Bool) (look : Look) (mode : Option WaitMode) : Bool :=
  mode = some .timed && look.lock = .ok && failsLoop scanList look.m look.waits

/-- Every list is a well-formed one, with no read in progress. -/
def Sound (look : Look) : Prop :=
  Readable look.m look.m.events ∧ ∀ t ∈ look.waits, Readable t.m t.m.events

end Look

namespace Reading

variable {gc timed scanList : Bool} {mode : Option WaitMode} {s t : Reading} {look : Look}
  {ts : List WaitEnd} {m : InMem} {r : Ret}

/-- The loop ends with `ET_OK` where there are events, and holds the mutex then. -/
theorem waitLoop_found (timed : Bool) (h : Look.foundLoop scanList s.m ts = some m) :
    ∃ t, waitLoop timed scanList s ts = some (.ok, t) ∧ t.m = m ∧ t.locked = s.locked := by
  induction ts generalizing scanList s with
  | nil =>
      unfold Look.foundLoop at h
      unfold waitLoop
      split at h
      case isTrue => cases h
      case isFalse hgo =>
        rw [if_neg hgo]
        exact ⟨s, rfl, Option.some.inj h, rfl⟩
  | cons e ts ih =>
      unfold Look.foundLoop at h
      unfold waitLoop
      split at h
      case isTrue hgo =>
        rw [Option.ite_none_right_eq_some] at h
        obtain ⟨⟨hok, hquit⟩, h⟩ := h
        obtain ⟨t, ht, hm, hlocked⟩ := ih
          (s := { s with m := e.m, quit := e.quit, blocked := false }) h
        refine ⟨t, ?_, hm, hlocked⟩
        rw [if_pos hgo]
        simp only [hok, hquit, reduceCtorEq, and_false, if_false, not_true_eq_false, ne_eq,
          Bool.false_eq_true]
        rw [hquit] at ht
        exact ht
      case isFalse hgo =>
        rw [if_neg hgo]
        exact ⟨s, rfl, Option.some.inj h, rfl⟩

/-- Otherwise it ends with another code, and the mutex is given back but for a timed wait that
ends with an error. -/
theorem waitLoop_notFound (h : Look.foundLoop scanList s.m ts = none)
    (hend : waitLoop timed scanList s ts = some (r, t)) :
    r ≠ .ok ∧ ((timed && Look.failsLoop scanList s.m ts) = false → t.locked = false) := by
  induction ts generalizing scanList s with
  | nil =>
      unfold Look.foundLoop at h
      unfold waitLoop at hend
      split at h
      case isTrue hgo =>
        rw [if_pos hgo] at hend
        cases hend
      case isFalse => cases h
  | cons e ts ih =>
      unfold Look.foundLoop at h
      unfold waitLoop at hend
      split at h
      case isFalse => cases h
      case isTrue hgo =>
        have hgo' : (decide (s.m.pl.cnt < 1) || !scanList) = true := by simpa using hgo
        rw [if_pos hgo] at hend
        unfold Look.failsLoop
        rw [hgo']
        cases hstatus : e.status with
        | timedOut =>
            cases timed with
            | true =>
                simp only [hstatus, and_self, if_true, Option.some.injEq, Prod.mk.injEq] at hend
                obtain ⟨rfl, rfl⟩ := hend
                exact ⟨nofun, fun _ => rfl⟩
            | false => simp [hstatus] at hend
        | failed =>
            cases timed with
            | true =>
                simp only [hstatus, reduceCtorEq, and_false, if_false, ne_eq, not_false_eq_true,
                  if_true, Option.some.injEq, Prod.mk.injEq] at hend
                obtain ⟨rfl, -⟩ := hend
                exact ⟨nofun, fun hno => by simp at hno⟩
            | false => simp [hstatus] at hend
        | ok =>
            simp only [hstatus, reduceCtorEq, and_false, if_false, ne_eq, not_true_eq_false] at hend
            cases hquit : e.quit with
            | true =>
                simp only [hquit, if_true, Option.some.injEq, Prod.mk.injEq] at hend
                obtain ⟨rfl, rfl⟩ := hend
                exact ⟨nofun, fun _ => rfl⟩
            | false =>
                simp only [hquit, Bool.false_eq_true, if_false] at hend
                rw [if_pos ⟨hstatus, hquit⟩] at h
                simpa using ih (s := { s with m := e.m, quit := false, blocked := false }) h hend

/-- After a timed wait that ends with an error the mutex is as it was. -/
theorem waitLoop_fails (h : Look.failsLoop scanList s.m ts = true) :
    ∃ t, waitLoop true scanList s ts = some (.error, t) ∧ t.locked = s.locked := by
  induction ts generalizing scanList s with
  | nil => cases h
  | cons e ts ih =>
      unfold Look.failsLoop at h
      simp only [Bool.and_eq_true, Bool.or_eq_true, decide_eq_true_eq, Bool.not_eq_true'] at h
      obtain ⟨hgo, hstatus | ⟨⟨hok, hquit⟩, hrest⟩⟩ := h
      · unfold waitLoop
        rw [if_pos hgo]
        simp only [hstatus, reduceCtorEq, and_false, if_false, ne_eq, not_false_eq_true, if_true]
        exact ⟨_, rfl, rfl⟩
      · unfold waitLoop
        rw [if_pos hgo]
        simp only [hok, hquit, reduceCtorEq, and_false, if_false, ne_eq, not_true_eq_false,
          Bool.false_eq_true]
        exact ih (s := { s with m := e.m, quit := false, blocked := false }) hrest

/-- The modes that wait. -/
theorem getReady_of_ne_async {mode : WaitMode} (h : mode ≠ .async) :
    getReady gc scanList s look (some mode) = if look.lock ≠ .ok then none else
      waitLoop (mode = .timed) scanList ((s.lock look).countIf (gc && scanList)) look.waits := by
  cases mode with
  | sleep => rfl
  | timed => rfl
  | async => exact absurd rfl h

theorem found_of_ne_async {mode : WaitMode} (h : mode ≠ .async) :
    look.found scanList (some mode) =
      if look.lock = .ok then Look.foundLoop scanList look.m look.waits else none := by
  cases mode with
  | sleep => rfl
  | timed => rfl
  | async => exact absurd rfl h

theorem getReady_found (gc : Bool) (s : Reading) (h : look.found scanList mode = some m) :
    ∃ t, getReady gc scanList s look mode = some (.ok, t) ∧ t.m = m ∧ t.locked = true := by
  cases mode with
  | none => cases h
  | some mode =>
      by_cases hasync : mode = .async
      · subst hasync
        simp only [Look.found, Option.ite_none_right_eq_some, Option.some.injEq] at h
        obtain ⟨⟨hlock, hquit, hcnt⟩, rfl⟩ := h
        refine ⟨(s.lock look).countIf gc, ?_, countIf_m _ _, countIf_locked _ _⟩
        have hm : ((s.lock look).countIf gc).m = look.m := countIf_m _ _
        simp only [getReady, hlock, hquit, hm, reduceCtorEq, if_false, Bool.false_eq_true]
        exact if_neg (Nat.not_lt.mpr hcnt)
      · rw [found_of_ne_async hasync, Option.ite_none_right_eq_some] at h
        rw [getReady_of_ne_async hasync, if_neg (not_not_intro h.1)]
        have hm : ((s.lock look).countIf (gc && scanList)).m = look.m := countIf_m _ _
        rw [← hm] at h
        obtain ⟨t, ht, htm, hlocked⟩ := waitLoop_found (decide (mode = .timed)) h.2
        exact ⟨t, ht, htm, hlocked.trans (countIf_locked _ _)⟩

theorem getReady_notFound (h : look.found scanList mode = none)
    (hend : getReady gc scanList s look mode = some (r, t)) :
    r ≠ .ok ∧ (look.waitFails scanList mode = false → s.locked = false → t.locked = false) := by
  cases mode with
  | none =>
      simp only [getReady, Option.some.injEq, Prod.mk.injEq] at hend
      obtain ⟨rfl, rfl⟩ := hend
      exact ⟨nofun, fun _ hs => hs⟩
  | some mode =>
      by_cases hasync : mode = .async
      · subst hasync
        simp only [getReady, countIf_m] at hend
        split at hend
        case isTrue =>
          simp only [Option.some.injEq, Prod.mk.injEq] at hend
          obtain ⟨rfl, rfl⟩ := hend
          exact ⟨nofun, fun _ hs => hs⟩
        case isFalse hbusy =>
          rw [Option.ite_none_left_eq_some] at hend
          obtain ⟨hfailed, hend⟩ := hend
          split at hend
          case isTrue =>
            simp only [Option.some.injEq, Prod.mk.injEq] at hend
            obtain ⟨rfl, rfl⟩ := hend
            exact ⟨nofun, fun _ _ => rfl⟩
          case isFalse hquit =>
            split at hend
            case isTrue =>
              simp only [Option.some.injEq, Prod.mk.injEq] at hend
              obtain ⟨rfl, rfl⟩ := hend
              exact ⟨nofun, fun _ _ => rfl⟩
            case isFalse hcnt =>
              -- there were events to take
              have hlock : look.lock = .ok := by
                cases hlock : look.lock with
                | ok => rfl
                | busy => exact absurd hlock hbusy
                | failed => exact absurd hlock hfailed
              have hgo : look.lock = .ok ∧ look.quit = false ∧ 1 ≤ look.m.pl.cnt :=
                ⟨hlock, by simpa using hquit, Nat.not_lt.mp hcnt⟩
              unfold Look.found at h
              rw [if_pos hgo] at h
              cases h
      · rw [getReady_of_ne_async hasync, Option.ite_none_left_eq_some, not_not] at hend
        obtain ⟨hlock, hend⟩ := hend
        rw [found_of_ne_async hasync, if_pos hlock] at h
        have hm : ((s.lock look).countIf (gc && scanList)).m = look.m := countIf_m _ _
        rw [← hm] at h
        obtain ⟨hr, hlocked⟩ := waitLoop_notFound h hend
        refine ⟨hr, fun hfails _ => hlocked ?_⟩
        rw [hm]
        simpa [Look.waitFails, hlock] using hfails

theorem getReady_fails (gc : Bool) (s : Reading) (h : look.waitFails scanList mode = true) :
    ∃ t, getReady gc scanList s look mode = some (.error, t) ∧ t.locked = true := by
  simp only [Look.waitFails, Bool.and_eq_true, decide_eq_true_eq] at h
  obtain ⟨⟨rfl, hlock⟩, hfails⟩ := h
  have hm : ((s.lock look).countIf (gc && scanList)).m = look.m := countIf_m _ _
  rw [← hm] at hfails
  obtain ⟨t, ht, hlocked⟩ := waitLoop_fails hfails
  refine ⟨t, ?_, hlocked.trans (countIf_locked _ _)⟩
  have htimed : WaitMode.timed ≠ .async := nofun
  rw [getReady_of_ne_async htimed, if_neg (not_not_intro hlock)]
  exact ht

/-! ## Reads of any events -/

variable {att : ℤ} {pe : List ℕ}

theorem readOnce_unlocks_iff (att : ℤ) (gc : Bool) (r : StationRead) (hs : s.locked = false) :
    (∀ code pe t, readOnce att gc mode r s look = some (code, pe, t) → t.locked = false) ↔
      look.waitFails true mode = false := by
  constructor
  · intro hall
    by_contra hfails
    rw [Bool.not_eq_false] at hfails
    obtain ⟨t, ht, hlocked⟩ := getReady_fails gc s hfails
    have := hall .error [] t (by rw [readOnce, ht]; rfl)
    rw [hlocked] at this
    cases this
  · intro hfails code pe t hend
    obtain ⟨⟨code', u⟩, hready, hend⟩ := Option.map_eq_some_iff.mp hend
    cases hfound : look.found true mode with
    | some m =>
        obtain ⟨v, hv, -⟩ := getReady_found gc s hfound
        obtain ⟨rfl, rfl⟩ : Ret.ok = code' ∧ v = u := by simpa using hv.symm.trans hready
        rw [if_pos rfl] at hend
        have hleft : (v.handOut att r).2 = t := congrArg (fun p => p.2.2) hend
        rw [← hleft]
        rfl
    | none =>
        obtain ⟨hcode, hlocked⟩ := getReady_notFound hfound hready
        rw [if_neg hcode] at hend
        have hleft : u = t := congrArg (fun p => p.2.2) hend
        rw [← hleft]
        exact hlocked hfails hs

end Reading

/-! ## Reads of one group -/

/-- The events of a group in a list. -/
def groupEvents (m : InMem) (group : ℕ) : List ℕ := m.events.filter (m.ev.inGroup group)

/-- **The lists a group read scans**, one after the other: it goes on while it finds none of its
group, unless its mode is `ET_ASYNC`. -/
def groupScans (mode : Option WaitMode) (group : ℕ) : Bool → List Look → List InMem
  | _, [] => []
  | scanList, look :: looks =>
      match look.found scanList mode with
      | none => []
      | some m =>
          m :: if groupEvents m group = [] ∧ mode ≠ some .async then
            groupScans mode group false looks else []

/-- A timed wait of a group read ends with an error. -/
def groupFails (mode : Option WaitMode) (group : ℕ) : Bool → List Look → Bool
  | _, [] => false
  | scanList, look :: looks =>
      look.waitFails scanList mode || (look.found scanList mode).any fun m =>
        groupEvents m group = [] && mode ≠ some .async && groupFails mode group false looks

/-- What the number of events wanted is after the scans. -/
def cutTo (num : ℕ) (scans : List InMem) : ℕ := scans.foldl (fun n m => min n m.pl.cnt) num

theorem le_cutTo {k num : ℕ} {scans : List InMem} :
    k ≤ cutTo num scans ↔ k ≤ num ∧ ∀ m ∈ scans, k ≤ m.pl.cnt := by
  induction scans generalizing num with
  | nil => simp [cutTo]
  | cons m scans ih =>
      have hcons : cutTo num (m :: scans) = cutTo (min num m.pl.cnt) scans := rfl
      rw [hcons, ih, Nat.le_min, List.forall_mem_cons, and_assoc]

theorem length_groupEvents_le {m : InMem} (group : ℕ) (h : IsList m.ev m.pl m.events) :
    (groupEvents m group).length ≤ m.pl.cnt := by
  rw [h.cnt_eq]
  exact (List.filter_sublist ..).length_le

namespace Look

variable {scanList : Bool} {mode : Option WaitMode} {look : Look} {m : InMem} {ts : List WaitEnd}

theorem of_foundLoop {first : InMem} (h : foundLoop scanList first ts = some m) :
    1 ≤ m.pl.cnt ∧ (m = first ∨ ∃ t ∈ ts, m = t.m) := by
  induction ts generalizing scanList first with
  | nil =>
      rw [foundLoop, Option.ite_none_left_eq_some, not_or, Option.some.injEq] at h
      obtain ⟨⟨hcnt, -⟩, rfl⟩ := h
      exact ⟨Nat.not_lt.mp hcnt, Or.inl rfl⟩
  | cons e ts ih =>
      unfold foundLoop at h
      split at h
      case isTrue =>
        rw [Option.ite_none_right_eq_some] at h
        obtain ⟨hcnt, hm⟩ := ih h.2
        refine ⟨hcnt, Or.inr ?_⟩
        rcases hm with rfl | ⟨t, ht, rfl⟩
        · exact ⟨e, List.mem_cons_self, rfl⟩
        · exact ⟨t, List.mem_cons_of_mem e ht, rfl⟩
      case isFalse hgo =>
        rw [not_or] at hgo
        obtain rfl := Option.some.inj h
        exact ⟨Nat.not_lt.mp hgo.1, Or.inl rfl⟩

/-- The list that events are taken from is one of those met, and not empty. -/
theorem Sound.found (hl : look.Sound) (h : look.found scanList mode = some m) :
    Readable m m.events ∧ 1 ≤ m.pl.cnt := by
  cases mode with
  | none => cases h
  | some mode =>
      by_cases hasync : mode = .async
      · subst hasync
        simp only [Look.found, Option.ite_none_right_eq_some, Option.some.injEq] at h
        obtain ⟨⟨-, -, hcnt⟩, rfl⟩ := h
        exact ⟨hl.1, hcnt⟩
      · rw [Reading.found_of_ne_async hasync, Option.ite_none_right_eq_some] at h
        obtain ⟨hcnt, hm⟩ := of_foundLoop h.2
        refine ⟨?_, hcnt⟩
        rcases hm with rfl | ⟨t, ht, rfl⟩
        · exact hl.1
        · exact hl.2 t ht

end Look

namespace Reading

variable {gc scanList : Bool} {mode : Option WaitMode} {group num : ℕ} {s t : Reading}
  {looks : List Look} {m : InMem} {att : ℤ} {pe : List ℕ}

/-- **One scan** hands out the first events of the group, and keeps the others in the list. -/
theorem handOut_group (att : ℤ) (group : ℕ) (h : Readable s.m s.m.events) (hcnt : 1 ≤ s.m.pl.cnt)
    (hnum : 1 ≤ num) :
    (s.handOut att (.nreadGroup (min num s.m.pl.cnt) group)).1 = (groupEvents s.m group).take num ∧
      (s.handOut att (.nreadGroup (min num s.m.pl.cnt) group)).2.locked = false := by
  have hlen : s.m.pl.cnt = s.m.events.length := h.isList.cnt_eq
  have hne : s.m.events ≠ [] := List.ne_nil_of_length_pos (hlen ▸ hcnt)
  have hread : (StationRead.nreadGroup (min num s.m.pl.cnt) group).num ≠ 0 := by
    show min num s.m.pl.cnt ≠ 0
    omega
  obtain ⟨-, htaken, -⟩ := @StationRead.wp_program att s.m s.m.events _ h hne hread
  refine ⟨?_, rfl⟩
  rw [handOut, htaken, StationRead.handOut, takeWhere_fst]
  show (groupEvents s.m group).take (min (min num s.m.pl.cnt) s.m.events.length) = _
  have hle := length_groupEvents_le group h.isList
  rw [← hlen, Nat.min_assoc, Nat.min_self, ← List.take_take, List.take_of_length_le hle]

/-- One time around the loop, from the list it finds. -/
theorem nreadGroupPasses_found {look : Look} (att : ℤ) (gc : Bool) (group : ℕ) (s : Reading)
    (looks : List Look) (hfound : look.found scanList mode = some m)
    (hm : Readable m m.events) (hcnt : 1 ≤ m.pl.cnt) (hnum : 1 ≤ num) :
    ∃ t, t.locked = false ∧ nreadGroupPasses att gc mode group num scanList s (look :: looks) =
      if groupEvents m group = [] ∧ mode ≠ some .async then
        nreadGroupPasses att gc mode group (min num m.pl.cnt) false t looks
      else some (.ok, (groupEvents m group).take num, t) := by
  obtain ⟨u, hu, rfl, -⟩ := getReady_found gc s hfound
  obtain ⟨htaken, hunlocked⟩ := handOut_group att group hm hcnt hnum
  refine ⟨(u.handOut att (.nreadGroup (min num u.m.pl.cnt) group)).2, hunlocked, ?_⟩
  have hnil : (groupEvents u.m group).take num = [] ↔ groupEvents u.m group = [] := by
    rw [List.take_eq_nil_iff]
    exact or_iff_right (by omega)
  rw [nreadGroupPasses, hu, Option.bind_some, if_neg (not_not_intro rfl)]
  simp only [htaken, hnil]
  split
  · rfl
  · rw [← htaken]

/-- One time around the loop, where there is nothing to take. -/
theorem nreadGroupPasses_notFound {look : Look} {code : Ret}
    (hfound : look.found scanList mode = none)
    (hend : nreadGroupPasses att gc mode group num scanList s (look :: looks) =
      some (code, pe, t)) :
    code ≠ .ok ∧ (look.waitFails scanList mode = false → s.locked = false → t.locked = false) := by
  rw [nreadGroupPasses, Option.bind_eq_some_iff] at hend
  obtain ⟨⟨code', u⟩, hready, hend⟩ := hend
  obtain ⟨hcode, hlocked⟩ := getReady_notFound hfound hready
  rw [if_pos hcode, Option.some.injEq, Prod.mk.injEq, Prod.mk.injEq] at hend
  obtain ⟨rfl, -, rfl⟩ := hend
  exact ⟨hcode, hlocked⟩

/-- **The mutex after the loop.** -/
theorem nreadGroupPasses_unlocks_iff (hl : ∀ look ∈ looks, look.Sound) (hs : s.locked = false)
    (hnum : 1 ≤ num) :
    (∀ code pe t, nreadGroupPasses att gc mode group num scanList s looks = some (code, pe, t) →
        t.locked = false) ↔ groupFails mode group scanList looks = false := by
  induction looks generalizing num scanList s with
  | nil => exact ⟨fun _ => rfl, fun _ _ _ _ hend => nomatch hend⟩
  | cons look looks ih =>
      cases hfound : look.found scanList mode with
      | some m =>
          obtain ⟨hm, hcnt⟩ := (hl look List.mem_cons_self).found hfound
          obtain ⟨u, hu, hpass⟩ := nreadGroupPasses_found att gc group s looks hfound hm hcnt hnum
          have hfails : look.waitFails scanList mode = false := by
            by_contra hfails
            rw [Bool.not_eq_false] at hfails
            obtain ⟨v, hv, -⟩ := getReady_fails gc s hfails
            obtain ⟨v', hv', -⟩ := getReady_found gc s hfound
            rw [hv'] at hv
            cases hv
          rw [groupFails, hfails, hfound, Option.any_some, Bool.false_or, hpass]
          split
          case isTrue hgo =>
            rw [ih (fun l hl' => hl l (List.mem_cons_of_mem look hl')) hu (Nat.le_min.mpr ⟨hnum, hcnt⟩)]
            simp [hgo.1, hgo.2]
          case isFalse hstop =>
            constructor
            · intro _
              rw [Bool.and_eq_false_iff]
              refine Or.inl ?_
              simpa using hstop
            · rintro - code pe t hend
              rw [Option.some.injEq, Prod.mk.injEq, Prod.mk.injEq] at hend
              rw [← hend.2.2]
              exact hu
      | none =>
          rw [groupFails, hfound, Option.any_none, Bool.or_false]
          constructor
          · intro hall
            by_contra hfails
            rw [Bool.not_eq_false] at hfails
            obtain ⟨v, hv, hlocked⟩ := getReady_fails gc s hfails
            have := hall .error [] v (by
              rw [nreadGroupPasses, hv, Option.bind_some, if_pos nofun])
            rw [hlocked] at this
            cases this
          · intro hfails code pe t hend
            exact (nreadGroupPasses_notFound hfound hend).2 hfails hs

/-- **What the loop hands out**: events of the list scanned last, as many as are wanted by
then. -/
theorem nreadGroupPasses_scans (att : ℤ) (gc : Bool) (mode : Option WaitMode) (group : ℕ)
    (s : Reading) (hl : ∀ look ∈ looks, look.Sound) (hnum : 1 ≤ num) :
    (∀ m, (groupScans mode group scanList looks).getLast? = some m →
      groupEvents m group ≠ [] ∨ mode = some .async →
      ∃ t, nreadGroupPasses att gc mode group num scanList s looks = some (.ok,
        (groupEvents m group).take (cutTo num (groupScans mode group scanList looks).dropLast), t)) ∧
    ∀ pe t, nreadGroupPasses att gc mode group num scanList s looks = some (.ok, pe, t) →
      ∃ m, (groupScans mode group scanList looks).getLast? = some m ∧
        (groupEvents m group ≠ [] ∨ mode = some .async) := by
  induction looks generalizing num scanList s with
  | nil =>
      constructor
      · intro m hm
        cases hm
      · intro pe t hend
        cases hend
  | cons look looks ih =>
      cases hfound : look.found scanList mode with
      | none =>
          rw [groupScans, hfound]
          constructor
          · intro m hm
            cases hm
          · intro pe t hend
            exact absurd rfl (nreadGroupPasses_notFound hfound hend).1
      | some m =>
          obtain ⟨hm, hcnt⟩ := (hl look List.mem_cons_self).found hfound
          obtain ⟨u, hu, hpass⟩ := nreadGroupPasses_found att gc group s looks hfound hm hcnt hnum
          rw [groupScans, hfound, hpass]
          dsimp only
          split
          case isTrue hgo =>
            obtain ⟨hout, hin⟩ := @ih false (min num m.pl.cnt) u
              (fun l hl' => hl l (List.mem_cons_of_mem look hl')) (Nat.le_min.mpr ⟨hnum, hcnt⟩)
            cases hscans : groupScans mode group false looks with
            | nil =>
                constructor
                · intro m' hm' hstop
                  obtain rfl : m = m' := Option.some.inj hm'
                  exact absurd hgo (not_and_or.mpr (hstop.imp id not_not_intro))
                · intro pe t hend
                  obtain ⟨m', hm', -⟩ := hin pe t hend
                  rw [hscans] at hm'
                  cases hm'
            | cons m₁ scans =>
                rw [hscans] at hout hin
                rw [List.getLast?_cons_cons, List.dropLast_cons_of_ne_nil (List.cons_ne_nil m₁ scans)]
                exact ⟨hout, hin⟩
          case isFalse hstop =>
            have hstop' : groupEvents m group ≠ [] ∨ mode = some .async := by
              rcases not_and_or.mp hstop with h | h
              · exact Or.inl h
              · exact Or.inr (not_not.mp h)
            constructor
            · intro m' hm' _
              obtain rfl : m = m' := Option.some.inj hm'
              exact ⟨u, rfl⟩
            · intro pe t _
              exact ⟨m, rfl, hstop'⟩

end Reading

theorem take_eq_take_iff {xs : List ℕ} {k num : ℕ} (h : k ≤ num) :
    xs.take k = xs.take num ↔ min num xs.length ≤ k := by
  constructor
  · intro htake
    have hlen := congrArg List.length htake
    rw [List.length_take, List.length_take] at hlen
    omega
  · intro hle
    rcases le_total num xs.length with hnum | hnum
    · rw [Nat.min_eq_left hnum] at hle
      rw [Nat.le_antisymm h hle]
    · rw [Nat.min_eq_right hnum] at hle
      rw [List.take_of_length_le hle, List.take_of_length_le hnum]

/-- One scan of any list. -/
theorem stationNreadGroup_takes {att : ℤ} {num group : ℕ} {m : InMem} {xs : List ℕ}
    (h : Readable m xs) (hnum : 1 ≤ num) :
    value (stationNreadGroup att num group) m = (xs.filter (m.ev.inGroup group)).take num ∧
      ∃ kept, IsList (final (stationNreadGroup att num group) m).ev
          (final (stationNreadGroup att num group) m).pl kept ∧ kept.Sublist xs ∧
        ((xs.filter (m.ev.inGroup group)).take num ++ kept).Perm xs := by
  rcases eq_or_ne xs [] with rfl | hxs
  · have hscan : wp (stationNreadGroup att num group) (fun _ => True)
        (fun r t => r = [] ∧ t.ev = m.ev ∧ t.pl = m.pl) m := by
      have hcnt : m.pl.cnt = 0 := h.isList.cnt_eq
      unfold stationNreadGroup noteRead
      simp only [wp_bind, wp_get, wp_store, wp_pure, hcnt, nreadGroupLoop, true_and,
        List.length_nil]
      refine EtList.ext hcnt.symm rfl rfl rfl rfl rfl rfl
    obtain ⟨hvalue, hev, hpl⟩ := hscan.2
    rw [List.filter_nil, List.take_nil]
    refine ⟨hvalue, [], ?_, List.Sublist.refl _, List.Perm.refl _⟩
    rw [hev, hpl]
    exact h.isList
  · have hwp : wp (stationNreadGroup att num group) _ _ m :=
      wp_stationNreadGroup h hxs (Nat.one_le_iff_ne_zero.mp hnum)
    obtain ⟨hvalue, hdone⟩ := hwp.2
    have htake : (takeWhere (m.ev.inGroup group) (min num xs.length) xs).1 =
        (xs.filter (m.ev.inGroup group)).take num := by
      rw [takeWhere_fst, ← List.take_take,
        List.take_of_length_le (List.filter_sublist ..).length_le]
    rw [htake] at hvalue
    refine ⟨hvalue, _, hdone.isList, takeWhere_snd_sublist, ?_⟩
    rw [← htake]
    exact takeWhere_perm

/-- **What a group read hands out.**  One scan takes the first events of the group, as many as
wanted, and leaves the others in the list.  A whole read that ends with `ET_OK` hands out events,
and as many as were asked for of those in the list it scans last, exactly if no list it scanned
in vain was shorter than that, and in the mode `ET_ASYNC` if there are events of the group. -/
theorem groupRead_takes_iff (att : ℤ) (gc : Bool) (mode : Option WaitMode) (num group : ℕ)
    (s : Reading) (looks : List Look) (hnum : 1 ≤ num) (hl : ∀ look ∈ looks, look.Sound) :
    (∀ m xs, Readable m xs →
      value (stationNreadGroup att num group) m = (xs.filter (m.ev.inGroup group)).take num ∧
        ∃ kept, IsList (final (stationNreadGroup att num group) m).ev
            (final (stationNreadGroup att num group) m).pl kept ∧ kept.Sublist xs ∧
          ((xs.filter (m.ev.inGroup group)).take num ++ kept).Perm xs) ∧
    ((∀ pe t, s.etStationNreadGroup att gc mode num group looks = some (.ok, pe, t) →
        ∀ m, (groupScans mode group true looks).getLast? = some m →
          pe ≠ [] ∧ pe = (groupEvents m group).take num) ↔
      ∀ m, (groupScans mode group true looks).getLast? = some m →
        (mode = some .async → groupEvents m group ≠ []) ∧
        ∀ m' ∈ (groupScans mode group true looks).dropLast,
          min num (groupEvents m group).length ≤ m'.pl.cnt) := by
  refine ⟨fun m xs h => stationNreadGroup_takes h hnum, ?_⟩
  have hcall : s.etStationNreadGroup att gc mode num group looks =
      Reading.nreadGroupPasses att gc mode group num true s looks := if_neg (by omega)
  obtain ⟨hout, hin⟩ := @Reading.nreadGroupPasses_scans true num looks att gc mode group s hl hnum
  rw [hcall]
  generalize groupScans mode group true looks = scans at hout hin ⊢
  have hcut : cutTo num scans.dropLast ≤ num := (le_cutTo.mp le_rfl).1
  constructor
  · intro hall m hlast
    by_cases hnil : groupEvents m group = []
    · refine ⟨fun hasync => ?_, fun m' _ => by simp [hnil]⟩
      obtain ⟨t, ht⟩ := hout m hlast (Or.inr hasync)
      rw [hnil, List.take_nil] at ht
      exact absurd rfl (hall [] t ht m hlast).1
    · refine ⟨fun _ => hnil, ?_⟩
      obtain ⟨t, ht⟩ := hout m hlast (Or.inl hnil)
      have htake := (hall _ t ht m hlast).2
      exact (le_cutTo.mp ((take_eq_take_iff hcut).mp htake)).2
  · intro hcond pe t hend m hlast
    obtain ⟨hasync, hle⟩ := hcond m hlast
    obtain ⟨m', hlast', hstop⟩ := hin pe t hend
    obtain rfl : m = m' := Option.some.inj (hlast.symm.trans hlast')
    obtain ⟨u, hu⟩ := hout m hlast hstop
    have hpe : pe = (groupEvents m group).take (cutTo num scans.dropLast) := by
      have := hend.symm.trans hu
      rw [Option.some.injEq, Prod.mk.injEq, Prod.mk.injEq] at this
      exact this.2.1
    rw [hpe, (take_eq_take_iff hcut).mpr (le_cutTo.mpr ⟨Nat.min_le_left _ _, hle⟩)]
    refine ⟨?_, rfl⟩
    rw [ne_eq, List.take_eq_nil_iff, not_or]
    exact ⟨by omega, hstop.elim id hasync⟩

/-- Two lists a read of group 1 can meet: in one there is one event, of group 0; in the other
there are two, of group 1. -/
def oneOther : InMem where
  ev := ⟨fun _ => none, fun _ => etSys, fun _ => .init⟩
  pl := ⟨1, 0, 0, 0, 0, some 0, some 0⟩
  fix := FixIn.init

def twoWanted : InMem where
  ev := ⟨fun e => if e = 1 then some 2 else none, fun _ => etSys,
    fun _ => { EventHeader.init with group := 1 }⟩
  pl := ⟨2, 0, 0, 0, 0, some 1, some 2⟩
  fix := FixIn.init

/-- A process that has nothing locked and has not been woken. -/
def idleReading : Reading := ⟨oneOther, false, false, false, fun _ => 0⟩

theorem twoWanted_readable : Readable twoWanted twoWanted.events where
  isList := by
    refine ⟨rfl, ?_, by decide, fun _ => rfl, fun _ => rfl⟩
    show LinkedHeap.Linked twoWanted.ev.next [1, 2]
    rw [LinkedHeap.linked_cons_cons]
    exact ⟨rfl, LinkedHeap.linked_singleton _ _⟩
  owned _ _ := rfl
  closed := rfl

theorem groupRead_takes_example : Look.Sound ⟨.ok, twoWanted, false, []⟩ ∧
    ∃ t, idleReading.etStationNreadGroup 0 false (some .sleep) 2 1 [⟨.ok, twoWanted, false, []⟩] =
        some (.ok, [1, 2], t) ∧ [1, 2] ≠ [] ∧ [1, 2] = (groupEvents twoWanted 1).take 2 := by
  have hsound : Look.Sound ⟨.ok, twoWanted, false, []⟩ :=
    ⟨twoWanted_readable, fun _ ht => absurd ht List.not_mem_nil⟩
  refine ⟨hsound, _, rfl, ?_⟩
  refine (groupRead_takes_iff 0 false (some .sleep) 2 1 idleReading [⟨.ok, twoWanted, false, []⟩]
    (by decide) (by simpa using hsound)).2.mpr (fun m hm => ?_) _ _ rfl twoWanted rfl
  obtain rfl : twoWanted = m := Option.some.inj hm
  exact ⟨fun hasync => (nomatch hasync), fun m' hm' => absurd hm' List.not_mem_nil⟩

/-- **Two events were asked for, two are there, and one is handed out**: a list of one event of
another group was scanned before.  And in the mode `ET_ASYNC` a list with no event of the group
is a success without events, while `et_station_nread` would return `ET_ERROR_EMPTY`. -/
theorem groupRead_takes_fewer :
    (∃ t, idleReading.etStationNreadGroup 0 false (some .sleep) 2 1
        [⟨.ok, oneOther, false, []⟩, ⟨.ok, oneOther, false, [⟨.ok, twoWanted, false⟩]⟩] =
      some (.ok, [1], t)) ∧ groupEvents twoWanted 1 = [1, 2] ∧
    ∃ t, idleReading.etStationNreadGroup 0 false (some .async) 2 1 [⟨.ok, oneOther, false, []⟩] =
      some (.ok, [], t) :=
  ⟨⟨_, rfl⟩, rfl, ⟨_, rfl⟩⟩

/-! ## The time of a timed wait -/

/-- `struct timespec`. -/
structure TimeSpec where
  sec : ℤ
  nsec : ℤ
  deriving DecidableEq, Repr

/-- A time of the clock. -/
def TimeSpec.Proper (t : TimeSpec) : Prop := 0 ≤ t.nsec ∧ t.nsec < 1000000000

/-- The check of `deltatime` in `et_event_new`, `et_events_new`, `et_event_get` and
`et_events_get`; `none` is a null pointer. -/
def acceptsDelta (deltatime : Option TimeSpec) : Bool :=
  deltatime.any fun t => ¬ (t.sec < 0 ∨ t.nsec < 0)

/-- "Translate a delta time into an absolute time".  The nanoseconds of `now` come from
`clock_gettime`, or are `1000*now.tv_usec`; their sum is a `long`. -/
def absTime (deltatime now : TimeSpec) : TimeSpec :=
  let nsecTotal := (deltatime.nsec + now.nsec).bmod (2 ^ 64)
  if nsecTotal ≥ 1000000000 then
    ⟨deltatime.sec + now.sec + 1, nsecTotal - 1000000000⟩
  else ⟨deltatime.sec + now.sec, nsecTotal⟩

theorem absTime_proper_iff {deltatime now : TimeSpec} (h : acceptsDelta (some deltatime) = true)
    (hlong : deltatime.nsec < 2 ^ 63) (hnow : now.Proper) :
    (absTime deltatime now).Proper ↔ deltatime.nsec + now.nsec < 2000000000 := by
  obtain ⟨hnow0, hnow1⟩ := hnow
  have h0 : 0 ≤ deltatime.nsec := by
    have : ¬ (deltatime.sec < 0 ∨ deltatime.nsec < 0) := by simpa [acceptsDelta] using h
    omega
  unfold absTime TimeSpec.Proper
  rcases Int.lt_or_le (deltatime.nsec + now.nsec) (2 ^ 63) with hfits | hover
  · have hmod : (deltatime.nsec + now.nsec).bmod (2 ^ 64) = deltatime.nsec + now.nsec := by
      rw [Int.bmod_def]
      omega
    rw [hmod]
    dsimp only
    split <;> (dsimp only; omega)
  · have hmod : (deltatime.nsec + now.nsec).bmod (2 ^ 64) =
        deltatime.nsec + now.nsec - 2 ^ 64 := by
      rw [Int.bmod_def]
      omega
    rw [hmod]
    dsimp only
    split <;> (dsimp only; omega)

/-- **Reads give the mutex back**, all three, exactly if no timed wait of theirs ends with an
error; and the time such a wait is given is a proper one exactly if the nanoseconds asked for and
those of the clock are less than two seconds. -/
theorem reads_unlock_iff (att : ℤ) (gc : Bool) (mode : Option WaitMode) (s : Reading)
    (hs : s.locked = false) :
    (∀ look, (∀ r pe t, s.etStationRead att gc mode look = some (r, pe, t) →
        t.locked = s.locked) ↔ look.waitFails true mode = false) ∧
    (∀ num look, (∀ r pe t, s.etStationNread att gc mode num look = some (r, pe, t) →
        t.locked = s.locked) ↔ num < 1 ∨ look.waitFails true mode = false) ∧
    (∀ num group looks, (∀ look ∈ looks, look.Sound) →
      ((∀ r pe t, s.etStationNreadGroup att gc mode num group looks = some (r, pe, t) →
        t.locked = s.locked) ↔ num < 1 ∨ groupFails mode group true looks = false)) ∧
    ∀ deltatime now, acceptsDelta (some deltatime) = true → deltatime.nsec < 2 ^ 63 → now.Proper →
      ((absTime deltatime now).Proper ↔ deltatime.nsec + now.nsec < 2000000000) := by
  rw [hs]
  refine ⟨fun look => Reading.readOnce_unlocks_iff att gc .read hs, fun num look => ?_,
    fun num group looks hl => ?_, fun deltatime now h hlong hnow => absTime_proper_iff h hlong hnow⟩
  · unfold Reading.etStationNread
    split
    case isTrue hnum =>
      refine ⟨fun _ => Or.inl hnum, ?_⟩
      rintro - r pe t hend
      rw [Option.some.injEq, Prod.mk.injEq, Prod.mk.injEq] at hend
      rw [← hend.2.2, hs]
    case isFalse hnum =>
      rw [or_iff_right hnum]
      exact Reading.readOnce_unlocks_iff att gc (.nread num) hs
  · unfold Reading.etStationNreadGroup
    split
    case isTrue hnum =>
      refine ⟨fun _ => Or.inl hnum, ?_⟩
      rintro - r pe t hend
      rw [Option.some.injEq, Prod.mk.injEq, Prod.mk.injEq] at hend
      rw [← hend.2.2, hs]
    case isFalse hnum =>
      rw [or_iff_right hnum]
      exact Reading.nreadGroupPasses_unlocks_iff hl hs (Nat.not_lt.mp hnum)

theorem reads_unlock_example : idleReading.locked = false ∧
    ∃ t, idleReading.etStationRead 0 false (some .timed) ⟨.ok, twoWanted, false, []⟩ =
      some (.ok, [1], t) ∧ t.locked = false := by
  refine ⟨rfl, _, rfl, ?_⟩
  exact ((reads_unlock_iff 0 false (some .timed) idleReading rfl).1 ⟨.ok, twoWanted, false, []⟩).mpr
    rfl _ _ _ rfl

/-- **Two seconds and more, in nanoseconds**: the check accepts them, the time of the wait is not
a proper one, and the read that gets an error from its wait returns with the mutex held. -/
theorem timedRead_keeps_lock :
    acceptsDelta (some ⟨0, 3000000000⟩) = true ∧
      (absTime ⟨0, 3000000000⟩ ⟨5, 0⟩).nsec = 2000000000 ∧
      ∃ t, idleReading.etStationRead 0 false (some .timed)
          ⟨.ok, { oneOther with pl := EtList.init }, false, [⟨.failed, oneOther, false⟩]⟩ =
        some (.error, [], t) ∧ idleReading.locked = false ∧ t.locked = true := by
  refine ⟨by decide, by decide, _, rfl, rfl, rfl⟩

end EventTransfer
