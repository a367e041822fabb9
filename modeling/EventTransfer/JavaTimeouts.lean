import EventTransfer.JavaReplies
import EventTransfer.RemoteTimeouts

/-!
# How long a call of the Java client waits

The routines of `EtSystem.java` that wait for events take a number of microseconds.  For more than
a second they ask the server again and again to wait for 0.2 seconds (`javaTiming`), as the
routines of `et_remote.c` do.  Here every request times out, and a clock counts the microseconds
the Java server was asked to wait, as it computes them (`javaMicroSec`).

There are two routines that return an array, `newEvents` with or without a group and `getEvents`,
and three that leave the events in a container.  What these do with events that come is a
parameter.

* `javaWaits_eq` — how long the requests wait together.
* `JavaLasts` — the call times out, and has lasted as long as it was asked to.
* `javaTimeouts_last_iff` — of each of the routines this holds for no time but zero.
-/

namespace EventTransfer

open Wire Exchange

variable {τ : Type}

/-! ## The routines that fill a container -/

section Container

variable {α : Type} (finish : List Word → Routine (Except Word (List α)))

/-- The loop of the three, from where the container has been checked; `finish` is what is done
with a number of events. -/
def javaFillContainer (fuel : ℕ) (mode : JavaMode) (microSec : ℤ) (count : Word)
    (request : Timing → List Byte) : Routine (Except Word (List α)) :=
  if count = 0 then .ret (.ok [])
  else
    let t := javaTiming mode.1 microSec
    etrRetry (request t.1) 1 mode.1 javaThrows finish fuel t.2

/-- `newEventsNoGroup`. -/
def javaNewEventsNoGroup (fuel : ℕ) (att : Word) (mode : JavaMode) (microSec : ℤ)
    (count size : Word) : Routine (Except Word (List α)) :=
  javaFillContainer finish fuel mode microSec count fun t =>
    eventsNewRequest att t (size.signExtend 64) count none

/-- `newEvents` with a container, which has a group. -/
def javaNewEventsContainer (fuel : ℕ) (att : Word) (mode : JavaMode) (microSec : ℤ)
    (count size group : Word) : Routine (Except Word (List α)) :=
  javaFillContainer finish fuel mode microSec count fun t =>
    eventsNewRequest att t (size.signExtend 64) count (some group)

/-- `getEvents` with a container. -/
def javaGetEventsContainer (fuel : ℕ) (att : Word) (mode : JavaMode) (modify : JavaModify)
    (microSec : ℤ) (count : Word) : Routine (Except Word (List α)) :=
  javaFillContainer finish fuel mode microSec count fun t =>
    javaEventsGetRequest att modify.1 count t

end Container

/-! ## The times -/

/-- `int uSec = sec * 1000000 + nsec / 1000`, which the Java server waits for a request. -/
def Timing.javaMicroSec (t : Timing) : Word := t.sec * 1000000 + t.nsec.sdiv 1000

/-- The requests of a call that times out wait for this many microseconds. -/
def javaWaits (microSec : ℤ) : ℕ :=
  ((javaTiming etTimed microSec).2.toNat + 1) * (javaTiming etTimed microSec).1.javaMicroSec.toNat

/-- A time of less than a second, written as nanoseconds, is read as it was. -/
theorem javaMicroSec_nsec {n : ℕ} (hn : n < 1000000) (w : Word) :
    (Timing.javaMicroSec ⟨w, 0, BitVec.ofInt 32 (n * 1000)⟩).toNat = n := by
  have hnsec : (BitVec.ofInt 32 (n * 1000)).toInt = n * 1000 := by
    rw [BitVec.toInt_ofInt]
    exact Int.bmod_eq_of_le (by omega) (by omega)
  have hsdiv : ((BitVec.ofInt 32 (n * 1000)).sdiv 1000).toInt = n := by
    have hthousand : (1000 : Word).toInt = 1000 := rfl
    rw [BitVec.toInt_sdiv, hnsec, hthousand, Int.mul_tdiv_cancel _ (by omega)]
    exact Int.bmod_eq_of_le (by omega) (by omega)
  have hzero : Timing.javaMicroSec ⟨w, 0, BitVec.ofInt 32 (n * 1000)⟩ =
      (BitVec.ofInt 32 (n * 1000)).sdiv 1000 := by
    simp [Timing.javaMicroSec]
  have hcond := BitVec.toInt_eq_toNat_cond ((BitVec.ofInt 32 (n * 1000)).sdiv 1000)
  rw [hzero]
  split at hcond <;> omega

/-- What a request for at most a second asks for arrives as it is. -/
theorem javaMicroSec_short {microSec : ℤ} (hpos : 0 ≤ microSec) (hshort : microSec ≤ 1000000) :
    ((javaTiming etTimed microSec).1.javaMicroSec.toNat : ℤ) = microSec ∧
      (javaTiming etTimed microSec).2 = 1 := by
  obtain ⟨n, rfl⟩ := Int.eq_ofNat_of_zero_le hpos
  have hlong : ¬(etTimed = etTimed ∧ 1000000 < (n : ℤ)) := by omega
  have hsleep : etTimed ≠ etSleep := by decide
  rw [javaTiming, if_neg hsleep, if_neg hlong]
  rcases Nat.eq_zero_or_pos n with rfl | hn
  · exact ⟨rfl, rfl⟩
  · rw [if_pos (by omega)]
    rcases Nat.lt_or_ge n 1000000 with hlt | hge
    · have hsec : (n : ℤ) / 1000000 = 0 := by omega
      have hnsec : (n : ℤ) % 1000000 = n := by omega
      rw [hsec, hnsec]
      exact ⟨congrArg Nat.cast (javaMicroSec_nsec hlt etTimed), rfl⟩
    · obtain rfl : n = 1000000 := by omega
      exact ⟨rfl, rfl⟩

/-- **How long the requests wait together**: up to a second twice the time asked for, and for more
than a second one interval more than there are in the time, rounded up. -/
theorem javaWaits_eq {microSec : ℤ} (hpos : 0 ≤ microSec) :
    (javaWaits microSec : ℤ) =
      if 1000000 < microSec then ((microSec + 199999) / 200000 + 1) * 200000
      else 2 * microSec := by
  by_cases hlong : 1000000 < microSec
  · have hsleep : etTimed ≠ etSleep := by decide
    have htiming : javaTiming etTimed microSec =
        (⟨etTimed, 0, 200000000⟩, microSec / 200000 + if 0 < microSec % 200000 then 1 else 0) := by
      rw [javaTiming, if_neg hsleep, if_pos ⟨rfl, hlong⟩]
    have hinterval : (Timing.javaMicroSec ⟨etTimed, 0, 200000000⟩).toNat = 200000 := by rfl
    rw [if_pos hlong, javaWaits, htiming, hinterval]
    split_ifs <;> omega
  · obtain ⟨harrives, hagain⟩ := javaMicroSec_short hpos (not_lt.1 hlong)
    rw [if_neg hlong, javaWaits, hagain]
    push_cast
    rw [harrives]

/-- **The time asked for is kept** by requests that have waited for `waited` microseconds: it is
not less, and when the wait is split it is less than an interval more.  When it is not, the single
request is all there is to wait for, or at most less than that much more. -/
def WaitKept (microSec waited : ℤ) : Prop :=
  microSec ≤ waited ∧
    if 1000000 < microSec then waited < microSec + 200000
    else waited = microSec ∨ waited < microSec + microSec

instance (microSec waited : ℤ) : Decidable (WaitKept microSec waited) := by
  unfold WaitKept
  infer_instance

theorem waitKept_javaWaits_iff {microSec : ℤ} (hpos : 0 ≤ microSec) :
    WaitKept microSec (javaWaits microSec) ↔ microSec = 0 := by
  rw [javaWaits_eq hpos]
  unfold WaitKept
  split_ifs <;> omega

/-! ## The calls -/

/-- A call of the system has timed out, after the time it was given. -/
def IsJavaTimeout {ε α : Type} (clock : Memory τ → ℕ) (timeout : ε) (t : Timing) (m : Memory τ)
    (r : Memory τ × Except ε α) : Prop :=
  r.2 = .error timeout ∧ clock r.1 = clock m + t.javaMicroSec.toNat

/-- **A system in which all waiting is in vain**: for new events, and for those of a station. -/
structure JavaTimesOut (J : JavaMaker τ) (L : Local τ) (clock : Memory τ → ℕ) : Prop where
  newEvents : ∀ att t count size m,
    IsJavaTimeout clock .timeout t m (J.newEvents att t count size m)
  newEventsGroup : ∀ att t count size group m,
    IsJavaTimeout clock .timeout t m (J.newEventsGroup att t count size group m)
  eventsGet : ∀ att t count m,
    IsJavaTimeout clock failureTimeout t m (L.eventsGet att t count m)

/-- **A call lasts as long as it was asked to**: it ends with the error of a timeout, after its
requests have waited. -/
def JavaLasts {α : Type} {σ : Type*} (serve : Server σ) (state : Memory τ → σ)
    (clock : Memory τ → ℕ) (m : Memory τ) (microSec : ℤ)
    (call : ℕ → Routine (Except Word α)) : Prop :=
  ∃ fuel m', converse serve (call fuel) (.quiet (state m)) =
      some (.error etErrorTimeout, .quiet (state m')) ∧
    WaitKept microSec (clock m' - clock m)

/-- The time alone decides. -/
theorem javaLasts_iff {α : Type} {σ : Type*} {serve : Server σ} {state : Memory τ → σ}
    (hstate : Function.Injective state) {clock : Memory τ → ℕ} {microSec : ℤ} (hpos : 0 ≤ microSec) {mode : JavaMode}
    (hmode : mode.1 = etTimed) {request : List Byte} {finish : List Word → Routine (Except Word α)}
    {next : Memory τ → Memory τ}
    (hnext : ∀ m, clock (next m) =
      clock m + (javaTiming mode.1 microSec).1.javaMicroSec.toNat)
    (hserve : ∀ m, serve (state m) request =
      some ((state (next m), putWords [etErrorTimeout]), []))
    {m : Memory τ} {call : ℕ → Routine (Except Word α)}
    (hcall : ∀ fuel, call fuel =
      etrRetry request 1 mode.1 javaThrows finish fuel (javaTiming mode.1 microSec).2) :
    JavaLasts serve state clock m microSec call ↔ microSec = 0 := by
  have hthrows : javaThrows etErrorTimeout = true := by decide
  have hwait : mode.1 ≠ etSleep := by
    rw [hmode]
    decide
  have hrun : ∀ fuel, converse serve (call fuel) (.quiet (state m)) =
      (askAgain mode.1 (timesOut next) fuel (javaTiming mode.1 microSec).2 m).map fun p =>
        (.error etErrorTimeout, .quiet (state p.1)) := by
    intro fuel
    rw [hcall]
    exact converse_etrRetry_timesOut [] hthrows rfl hserve fuel _ m
  have hclock : ∀ {fuel p}, askAgain mode.1 (timesOut next) fuel
      (javaTiming mode.1 microSec).2 m = some p →
        clock p.1 = clock m + javaWaits microSec := by
    intro fuel p h
    rw [clock_askAgain hwait hnext h, javaWaits, hmode]
  rw [← waitKept_javaWaits_iff hpos]
  constructor
  · rintro ⟨fuel, m', hconverse, hkept⟩
    rw [hrun, Option.map_eq_some_iff] at hconverse
    obtain ⟨p, hasked, hp⟩ := hconverse
    obtain rfl : p.1 = m' :=
      hstate (congrArg Conn.server (Prod.mk.inj hp).2)
    rw [hclock hasked] at hkept
    simpa using hkept
  · intro hkept
    obtain ⟨p, hasked⟩ := exists_askAgain hwait next
      (Nat.lt_add_one (javaTiming mode.1 microSec).2.toNat) m
    refine ⟨_, p.1, (hrun _).trans (by rw [hasked]; rfl), ?_⟩
    rw [hclock hasked]
    simpa using hkept

theorem ready_injective : Function.Injective (@JavaMaker.ready τ) := by
  intro m m' h
  exact (Prod.mk.inj (Option.some.inj h)).1

section Routines

variable {J : JavaMaker τ} {L : Local τ} {clock : Memory τ → ℕ} (hsys : JavaTimesOut J L clock)
include hsys

/-- What the server answers to a request for new events. -/
theorem run_javaEventsNew_timesOut {bit64 : Bool} (att : Word) (t : Timing) {size : BitVec 64}
    {count : Word} (hsmall : ¬JavaTooBig bit64 (javaProduct count size)) (group : Option Word)
    (m : Memory τ) :
    J.javaNewLoop bit64 (JavaMaker.ready m) (eventsNewRequest att t size count group) =
      some ((JavaMaker.ready (J.newFor att t count (javaInt size) group m).1,
        putWords [etErrorTimeout]), []) ∧
    clock (J.newFor att t count (javaInt size) group m).1 = clock m + t.javaMicroSec.toNat := by
  have htimeout : IsJavaTimeout clock .timeout t m (J.newFor att t count (javaInt size) group m) := by
    cases group with
    | none => exact hsys.newEvents att t count _ m
    | some group => exact hsys.newEventsGroup att t count _ group m
  refine ⟨?_, htimeout.2⟩
  rw [J.run_javaEventsNew, if_neg hsmall]
  rcases hnew : J.newFor att t count (javaInt size) group m with ⟨m', r⟩
  rw [hnew] at htimeout
  obtain rfl : r = .error .timeout := htimeout.1
  rfl

/-- What the server answers to a request for events of a station. -/
theorem run_javaEventsGet_timesOut (size : ArraySize) (att : Word) (modify : JavaModify)
    (count : Word) (t : Timing) (m : Memory τ) :
    L.javaLoop size (some m) (javaEventsGetRequest att modify.1 count t) =
      some ((some (L.eventsGet att t count m).1, putWords [etErrorTimeout]), []) := by
  have htimeout := hsys.eventsGet att t count m
  have hrun := L.run_javaEventsGet size att modify.1 count t m []
  rw [List.append_nil] at hrun
  rw [Local.javaEventsGetRequest_eq, hrun]
  rcases hget : L.eventsGet att t count m with ⟨m', r⟩
  rw [hget] at htimeout
  obtain rfl : r = .error failureTimeout := htimeout.1
  rfl

variable {microSec : ℤ} (hpos : 0 ≤ microSec) {mode : JavaMode} (hmode : mode.1 = etTimed)
include hpos hmode

/-- A request for new events, whatever is done with them. -/
theorem javaNew_lasts_iff {α : Type} {bit64 : Bool} (att : Word) {size : BitVec 64} {count : Word}
    (hsmall : ¬JavaTooBig bit64 (javaProduct count size)) (group : Option Word)
    (finish : List Word → Routine (Except Word α)) {call : ℕ → Routine (Except Word α)}
    (hcall : ∀ fuel, call fuel =
      etrRetry (eventsNewRequest att (javaTiming mode.1 microSec).1 size count group) 1 mode.1
        javaThrows finish fuel (javaTiming mode.1 microSec).2) (m : Memory τ) :
    JavaLasts (J.javaNewLoop bit64) JavaMaker.ready clock m microSec call ↔ microSec = 0 :=
  javaLasts_iff ready_injective hpos hmode
    (fun m => (run_javaEventsNew_timesOut hsys att _ hsmall group m).2)
    (fun m => (run_javaEventsNew_timesOut hsys att _ hsmall group m).1) hcall

/-- A request for events of a station, whatever is done with them. -/
theorem javaGet_lasts_iff {α : Type} (size : ArraySize) (att : Word) (modify : JavaModify)
    (count : Word) (finish : List Word → Routine (Except Word α))
    {call : ℕ → Routine (Except Word α)}
    (hcall : ∀ fuel, call fuel =
      etrRetry (javaEventsGetRequest att modify.1 count (javaTiming mode.1 microSec).1) 1 mode.1
        javaThrows finish fuel (javaTiming mode.1 microSec).2) (m : Memory τ) :
    JavaLasts (L.javaLoop size) some clock m microSec call ↔ microSec = 0 :=
  javaLasts_iff (Option.some_injective _) hpos hmode (fun m => (hsys.eventsGet att _ count m).2)
    (run_javaEventsGet_timesOut hsys size att modify count _) hcall

theorem javaGetEvents_lasts_iff (size : ArraySize) (att : Word) (modify : JavaModify)
    (count : Word) (m : Memory τ) :
    JavaLasts (L.javaLoop size) some clock m microSec
      (fun fuel => javaGetEvents fuel att mode.1 modify.1 microSec count) ↔ microSec = 0 :=
  javaGet_lasts_iff hsys hpos hmode size att modify count _ (fun _ => rfl) m

/-- **The times that the Java client keeps** when every request times out: zero alone, in all six
routines. -/
theorem javaTimeouts_last_iff {α : Type} (bit64 : Bool) (arraySize : ArraySize) (esize : BitVec 64)
    (att : Word) (a : NewArgs) (haccepts : a.early = none) (ha : a.mode = mode)
    (hmicro : a.microSec = microSec)
    (hsmall : ¬JavaTooBig bit64 (javaProduct a.count a.longSize)) (group : Word)
    (modify : JavaModify) (finish : List Word → Routine (Except Word (List α))) (m : Memory τ) :
    (JavaLasts (J.javaNewLoop bit64) JavaMaker.ready clock m microSec
        (fun fuel => javaNewEvents fuel esize att a) ↔ microSec = 0) ∧
      (JavaLasts (J.javaNewLoop bit64) JavaMaker.ready clock m microSec
        (fun fuel => javaNewEventsNoGroup finish fuel att mode microSec a.count a.size) ↔
          microSec = 0) ∧
      (JavaLasts (J.javaNewLoop bit64) JavaMaker.ready clock m microSec
        (fun fuel => javaNewEventsContainer finish fuel att mode microSec a.count a.size group) ↔
          microSec = 0) ∧
      (JavaLasts (L.javaLoop arraySize) some clock m microSec
        (fun fuel => javaGetEvents fuel att mode.1 modify.1 microSec a.count) ↔ microSec = 0) ∧
      (JavaLasts (L.javaLoop arraySize) some clock m microSec
        (fun fuel => javaGetEventsContainer finish fuel att mode modify microSec a.count) ↔
          microSec = 0) := by
  have hcount : a.count ≠ 0 := by
    intro hzero
    rw [NewArgs.early, if_pos hzero] at haccepts
    exact nomatch haccepts
  have hfill : ∀ fuel request, javaFillContainer finish fuel mode microSec a.count request =
      etrRetry (request (javaTiming mode.1 microSec).1) 1 mode.1 javaThrows finish fuel
        (javaTiming mode.1 microSec).2 := fun fuel request => if_neg hcount
  refine ⟨?_, ?_, ?_, ?_, ?_⟩
  · refine javaNew_lasts_iff hsys hpos hmode att hsmall a.group
      (javaRecvIds a.noBuffer (eventSize esize a.longSize)) (fun fuel => ?_) m
    rw [javaNewEvents, haccepts, NewArgs.request_eq, ha, hmicro]
  · exact javaNew_lasts_iff hsys hpos hmode att hsmall none finish (fun fuel => hfill fuel _) m
  · exact javaNew_lasts_iff hsys hpos hmode att hsmall (some group) finish
      (fun fuel => hfill fuel _) m
  · exact javaGetEvents_lasts_iff hsys hpos hmode arraySize att modify a.count m
  · exact javaGet_lasts_iff hsys hpos hmode arraySize att modify a.count finish
      (fun fuel => hfill fuel _) m

end Routines

/-! ## A system without events -/

/-- Waiting for new events, in a system whose state is the time waited so far. -/
def JavaMaker.waiting : JavaMaker ℕ where
  newEvent _ t _ m := ({ m with sys := m.sys + t.javaMicroSec.toNat }, .error .timeout)
  newEvents _ t _ _ m := ({ m with sys := m.sys + t.javaMicroSec.toNat }, .error .timeout)
  newEventsGroup _ t _ _ _ m := ({ m with sys := m.sys + t.javaMicroSec.toNat }, .error .timeout)

/-- Waiting for the events of a station. -/
def Local.javaWaiting : Local ℕ :=
  { Local.waiting with
    eventsGet _ t _ m := ({ m with sys := m.sys + t.javaMicroSec.toNat }, .error failureTimeout) }

theorem javaTimesOut_waiting : JavaTimesOut .waiting .javaWaiting Memory.sys where
  newEvents _ _ _ _ _ := ⟨rfl, rfl⟩
  newEventsGroup _ _ _ _ _ _ := ⟨rfl, rfl⟩
  eventsGet _ _ _ _ := ⟨rfl, rfl⟩

/-- `Mode.TIMED`. -/
def javaTimed : JavaMode := ⟨etTimed, .inr (.inl rfl)⟩

/-- `Modify.NOTHING`. -/
def javaNothing : JavaModify := ⟨0, .inl rfl⟩

/-- One new event of ten bytes, without waiting. -/
def newArgsAtOnce : NewArgs := ⟨javaTimed, false, 0, 1, 10, none⟩

theorem newArgsAtOnce_early : newArgsAtOnce.early = none := by
  have hcount : ¬(newArgsAtOnce.count = 0) := by decide
  have hother : ¬(newArgsAtOnce.count.toInt < 0 ∨
      (newArgsAtOnce.microSec < 0 ∧ newArgsAtOnce.mode.1 = etTimed) ∨
      newArgsAtOnce.size.toInt < 1 ∨ ∃ group ∈ newArgsAtOnce.group, group.toInt < 1) := by
    rintro (h | h | h | ⟨group, hgroup, -⟩)
    · exact absurd h (by decide)
    · exact absurd h.1 (by decide)
    · exact absurd h (by decide)
    · exact nomatch hgroup
  rw [NewArgs.early, if_neg hcount, if_neg hother]

/-- Events of a hundred bytes. -/
def hundredBytes : ArraySize := ⟨100, by decide⟩

/-- No time at all is kept. -/
theorem javaTimeouts_last_zero :
    JavaLasts (JavaMaker.waiting.javaNewLoop false) JavaMaker.ready Memory.sys .noWait 0
      (fun fuel => javaNewEvents fuel 100 1 newArgsAtOnce) :=
  (javaTimeouts_last_iff javaTimesOut_waiting (le_refl 0) (show javaTimed.1 = etTimed from rfl)
    false hundredBytes 100 1 newArgsAtOnce newArgsAtOnce_early rfl rfl (fun h => nomatch h.1) 1
    javaNothing (fun _ => .ret (.ok ([] : List ℕ))) .noWait).1.mpr rfl

/-- Half a second lasts a second: the server is asked twice to wait for it. -/
theorem java_half_second_doubled :
    ¬JavaLasts (Local.javaWaiting.javaLoop hundredBytes) some Memory.sys .noWait 500000
      (fun fuel => javaGetEvents fuel 1 javaTimed.1 javaNothing.1 500000 1) := by
  have hiff := javaGetEvents_lasts_iff javaTimesOut_waiting (show (0 : ℤ) ≤ 500000 by omega)
    (show javaTimed.1 = etTimed from rfl) hundredBytes 1 javaNothing 1 .noWait
  exact fun h => absurd (hiff.mp h) (by omega)

end EventTransfer
