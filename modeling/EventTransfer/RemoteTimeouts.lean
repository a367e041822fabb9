import EventTransfer.BlockingRead
import EventTransfer.RemoteTransfer

/-!
# How long a remote call waits

A remote call with a time limit of more than a second asks the server again and again to wait
for 0.2 seconds (`netTiming`).  Here every request times out, and a clock counts what the
server was asked to wait.

* `askAgain_timesOut` — how often the server is asked, and what the clock shows in the end.
* `LastsAsAsked` — the call times out, not before the time limit, and less than 0.2 seconds
  after it.
* `timeouts_last_iff` — this holds of the five routines that wait for exactly the same time
  limits: those below 0.2 seconds, and those of whole multiples of 0.2 seconds and some
  nanoseconds, between a second and 2^31 microseconds.
-/

namespace EventTransfer

open Wire Exchange

variable {τ : Type}

/-! ## Time limits -/

/-- A time limit in nanoseconds. -/
def TimeSpec.nanoSec (t : TimeSpec) : ℤ := t.sec * 1000000000 + t.nsec

/-- `microSec`: a time limit in microseconds. -/
def TimeSpec.microSec (t : TimeSpec) : ℤ := t.sec * 1000000 + t.nsec / 1000

/-- How long the server waits for a request; the two integers arrive without a sign. -/
def Timing.nanoSec (t : Timing) : ℕ := t.sec.toNat * 1000000000 + t.nsec.toNat

/-- The time limit as the routines take it. -/
def TimeSpec.pair (t : TimeSpec) : Option (ℤ × ℤ) := some (t.sec, t.nsec)

/-- The requests of a call that times out wait for this many nanoseconds. -/
def waitsFor (mode : Word) (deltatime : TimeSpec) : ℕ :=
  ((netTiming mode deltatime.pair).2.toNat + 1) * (netTiming mode deltatime.pair).1.nanoSec

/-- **The time limits that are kept.** -/
def TimeSpec.Kept (t : TimeSpec) : Prop :=
  t.nanoSec < 200000000 ∨
    (1000000 < t.microSec ∧ t.microSec < 2 ^ 31 ∧ t.microSec % 200000 = 0 ∧ t.nsec % 1000 ≠ 0)

instance (t : TimeSpec) : Decidable t.Kept := inferInstanceAs (Decidable (_ ∨ _))

section

variable {mode : Word} {deltatime : TimeSpec}

theorem nonneg_of_acceptsDelta (h : acceptsDelta (some deltatime) = true) :
    0 ≤ deltatime.sec ∧ 0 ≤ deltatime.nsec := by
  have hnot : ¬ (deltatime.sec < 0 ∨ deltatime.nsec < 0) := by simpa [acceptsDelta] using h
  omega

/-- Up to a second the server is asked twice. -/
theorem waitsFor_short (hmode : mode &&& etWaitMask = etTimed)
    (h : acceptsDelta (some deltatime) = true) (hshort : deltatime.microSec ≤ 1000000) :
    (waitsFor mode deltatime : ℤ) = 2 * deltatime.nanoSec := by
  obtain ⟨hsec, hnsec⟩ := nonneg_of_acceptsDelta h
  have htiming : netTiming mode deltatime.pair =
      (⟨etTimed, .ofInt 32 deltatime.sec, .ofInt 32 deltatime.nsec⟩, 1) := by
    have hmicro : ¬ 1000000 < deltatime.sec * 1000000 + deltatime.nsec.tdiv 1000 := by
      rw [Int.tdiv_eq_ediv_of_nonneg hnsec]
      exact not_lt.mpr hshort
    simp only [netTiming, TimeSpec.pair, Option.getD_some, hmode, if_true, hmicro, and_false,
      if_false]
    rfl
  have hword : ∀ x : ℤ, 0 ≤ x → x < 2 ^ 32 → ((BitVec.ofInt 32 x).toNat : ℤ) = x := by
    intro x h0 h1
    rw [BitVec.toNat_ofInt]
    omega
  unfold TimeSpec.microSec at hshort
  have hs := hword deltatime.sec hsec (by omega)
  have hn := hword deltatime.nsec hnsec (by omega)
  rw [waitsFor, htiming]
  simp only [Timing.nanoSec, TimeSpec.nanoSec]
  push_cast
  rw [hs, hn]

/-- For more than a second it is asked for 0.2 seconds; how often, is computed with an `int`. -/
theorem waitsFor_long (hmode : mode &&& etWaitMask = etTimed)
    (h : acceptsDelta (some deltatime) = true) (hlong : 1000000 < deltatime.microSec) :
    (waitsFor mode deltatime : ℤ) =
      ((((BitVec.ofInt 32 deltatime.microSec).toInt.tdiv 200000 +
        if 0 < deltatime.microSec % 200000 then 1 else 0).toNat : ℤ) + 1) * 200000000 := by
  obtain ⟨hsec, hnsec⟩ := nonneg_of_acceptsDelta h
  have hmicro : deltatime.sec * 1000000 + deltatime.nsec.tdiv 1000 = deltatime.microSec := by
    rw [Int.tdiv_eq_ediv_of_nonneg hnsec]
    rfl
  have htiming : netTiming mode deltatime.pair =
      (⟨etTimed, 0, 200000000⟩, (BitVec.ofInt 32 deltatime.microSec).toInt.tdiv 200000 +
        if 0 < deltatime.microSec % 200000 then 1 else 0) := by
    have hmod : deltatime.microSec.tmod 200000 = deltatime.microSec % 200000 :=
      Int.tmod_eq_emod_of_nonneg (by omega)
    simp only [netTiming, TimeSpec.pair, Option.getD_some, hmode, if_true, hmicro, hlong, and_true,
      hmod]
    rfl
  rw [waitsFor, htiming]
  push_cast
  rfl

/-- **Exactly which time limits are kept** by the requests of a call that times out. -/
theorem waitsFor_kept_iff (hmode : mode &&& etWaitMask = etTimed)
    (h : acceptsDelta (some deltatime) = true) :
    (deltatime.nanoSec ≤ waitsFor mode deltatime ∧
      (waitsFor mode deltatime : ℤ) < deltatime.nanoSec + 200000000) ↔ deltatime.Kept := by
  obtain ⟨hsec, hnsec⟩ := nonneg_of_acceptsDelta h
  rcases le_or_gt deltatime.microSec 1000000 with hshort | hlong
  · rw [waitsFor_short hmode h hshort]
    unfold TimeSpec.Kept TimeSpec.nanoSec
    omega
  · rw [waitsFor_long hmode h hlong]
    have hnano : deltatime.nanoSec = deltatime.microSec * 1000 + deltatime.nsec % 1000 := by
      unfold TimeSpec.nanoSec TimeSpec.microSec
      omega
    rcases lt_or_ge deltatime.microSec (2 ^ 31) with hint | hover
    · have hsame : (BitVec.ofInt 32 deltatime.microSec).toInt = deltatime.microSec := by
        rw [BitVec.toInt_ofInt, Int.bmod_def]
        omega
      rw [hsame, Int.tdiv_eq_ediv_of_nonneg (by omega)]
      unfold TimeSpec.Kept
      rw [hnano]
      split_ifs <;> omega
    · -- what is left of the time limit in an `int` is too little
      have hless : (BitVec.ofInt 32 deltatime.microSec).toInt + 2 ^ 32 ≤ deltatime.microSec := by
        rw [BitVec.toInt_ofInt, Int.bmod_def]
        omega
      have hdiv : (BitVec.ofInt 32 deltatime.microSec).toInt.tdiv 200000 * 200000 ≤
          max 0 (BitVec.ofInt 32 deltatime.microSec).toInt := by
        have hsign : Int.sign 200000 = 1 := rfl
        rw [Int.tdiv_eq_ediv, hsign]
        split_ifs <;> omega
      unfold TimeSpec.Kept
      rw [hnano]
      split_ifs <;> omega

end

/-! ## Requests that time out -/

/-- `ET_ERROR_TIMEOUT` as an error code. -/
def failureTimeout : Failure := ⟨etErrorTimeout, by decide⟩

/-- A call that times out, whatever the state is. -/
def timesOut (next : Memory τ → Memory τ) (m : Memory τ) : Memory τ × Except Failure Empty :=
  (next m, .error failureTimeout)

/-- A routine never gets another answer. -/
theorem askAgain_timesOut {wait : Word} {next : Memory τ → Memory τ} {fuel : ℕ} {iterations : ℤ}
    {m m' : Memory τ} {r : Except Failure Empty}
    (h : askAgain wait (timesOut next) fuel iterations m = some (m', r)) :
    r = .error failureTimeout := by
  obtain ⟨m₀, hcall⟩ := askAgain_mem h
  exact (congrArg Prod.snd hcall).symm

/-- **The server is asked once more than the routine counts**, and the clock shows for how
long. -/
theorem clock_askAgain {wait : Word} (hwait : wait ≠ etSleep) {next : Memory τ → Memory τ}
    {clock : Memory τ → ℕ} {n : ℕ} (hnext : ∀ m, clock (next m) = clock m + n) {fuel : ℕ}
    {iterations : ℤ} {m m' : Memory τ} {r : Except Failure Empty}
    (h : askAgain wait (timesOut next) fuel iterations m = some (m', r)) :
    clock m' = clock m + (iterations.toNat + 1) * n := by
  induction fuel generalizing iterations m with
  | zero => exact nomatch h
  | succ fuel ih =>
      rw [askAgain] at h
      simp only [timesOut] at h
      by_cases hagain : 0 < iterations
      · have hone : iterations.toNat = (iterations - 1).toNat + 1 := by omega
        rw [if_pos ⟨rfl, .inr hagain⟩] at h
        rw [ih h, hnext, hone]
        ring
      · have hlast : iterations.toNat = 0 := by omega
        rw [if_neg fun hc => hagain (hc.2.resolve_left hwait), Option.some.injEq,
          Prod.mk.injEq] at h
        rw [← h.1, hnext, hlast, Nat.zero_add, Nat.one_mul]

/-- It is not asked for ever. -/
theorem exists_askAgain {wait : Word} (hwait : wait ≠ etSleep) (next : Memory τ → Memory τ)
    {fuel : ℕ} {iterations : ℤ} (hfuel : iterations.toNat < fuel) (m : Memory τ) :
    ∃ p, askAgain wait (timesOut next) fuel iterations m = some p := by
  induction fuel generalizing iterations m with
  | zero => exact absurd hfuel (Nat.not_lt_zero _)
  | succ fuel ih =>
      rw [askAgain]
      simp only [timesOut]
      by_cases hagain : 0 < iterations
      · rw [if_pos ⟨rfl, .inr hagain⟩]
        exact ih (by omega) (next m)
      · rw [if_neg fun hc => hagain (hc.2.resolve_left hwait)]
        exact ⟨_, rfl⟩

/-- What a routine gives when its requests time out. -/
theorem converse_etrRetry_timesOut {α : Type} {σ : Type*} {serve : Server σ}
    {state : Memory τ → σ} {request : List Byte} {n : ℕ} {wait : Word} {failed : Word → Bool}
    {finish : List Word → Routine (Except Word α)} {next : Memory τ → Memory τ} (pad : List Word)
    (hfailed : failed etErrorTimeout = true) (hpad : pad.length + 1 = n)
    (hserve : ∀ m, serve (state m) request =
      some ((state (next m), putWords (etErrorTimeout :: pad)), []))
    (fuel : ℕ) (iterations : ℤ) (m : Memory τ) :
    converse serve (etrRetry request n wait failed finish fuel iterations) (.quiet (state m)) =
      (askAgain wait (timesOut next) fuel iterations m).map fun p =>
        (.error etErrorTimeout, .quiet (state p.1)) := by
  have hcall : ∀ m m' err, timesOut next m = (m', .error err) →
      serve (state m) request = some ((state m', putWords (err.1 :: pad)), []) := by
    intro m m' err h
    cases h
    exact hserve m
  have hfails : ∀ m m' err, timesOut next m = (m', .error err) → failed err.1 = true := by
    intro m m' err h
    cases h
    exact hfailed
  have hconverse := converse_etrRetry_via state wait (timesOut next) finish pad
    (fun _ (b : Empty) _ => b.elim) hfails hcall (fun _ _ b => b.elim) hpad fuel iterations m
  rcases hasked : askAgain wait (timesOut next) fuel iterations m with _ | ⟨m', err | b⟩
  · rw [hasked] at hconverse
    exact hconverse
  · rw [hasked] at hconverse
    have herr := askAgain_timesOut hasked
    cases herr
    exact hconverse
  · exact b.elim

/-! ## The five routines -/

/-- A local call has timed out, after the time it was given. -/
def IsTimeout {α : Type} (clock : Memory τ → ℕ) (t : Timing) (m : Memory τ)
    (r : Memory τ × Except Failure α) : Prop :=
  r.2 = .error failureTimeout ∧ clock r.1 = clock m + t.nanoSec

theorem IsTimeout.exists_eq {α : Type} {clock : Memory τ → ℕ} {t : Timing} {m : Memory τ}
    {r : Memory τ × Except Failure α} (h : IsTimeout clock t m r) :
    ∃ m', r = (m', .error failureTimeout) := ⟨r.1, Prod.ext rfl h.1⟩

/-- **A server on which all waiting is in vain.**  `clock` is what its state says of the time
waited so far. -/
structure Local.TimesOut (L : Local τ) (clock : Memory τ → ℕ) : Prop where
  eventGet : ∀ att t m, IsTimeout clock t m (L.eventGet att t m)
  eventsGet : ∀ att t num m, IsTimeout clock t m (L.eventsGet att t num m)
  eventNew : ∀ att t size m, IsTimeout clock t m (L.eventNew att t size m)
  eventsNew : ∀ att t size num m, IsTimeout clock t m (L.eventsNew att t size num m)
  eventsNewGroup : ∀ att t size num group m,
    IsTimeout clock t m (L.eventsNewGroup att t size num group m)

/-- **A remote call lasts as long as it was asked to**: it times out, its requests have waited
for the time limit, and for less than 0.2 seconds more. -/
def LastsAsAsked {α : Type} (L : Local τ) (big : Bool) (clock : Memory τ → ℕ) (m : Memory τ)
    (deltatime : TimeSpec) (call : ℕ → Routine (Except Word α)) : Prop :=
  ∃ fuel m', converse (L.commandLoop big) (call fuel) (.quiet (some m)) =
      some (.error etErrorTimeout, .quiet (some m')) ∧
    clock m + deltatime.nanoSec ≤ clock m' ∧
    (clock m' : ℤ) < clock m + deltatime.nanoSec + 200000000

section

variable {L : Local τ} {big : Bool} {clock : Memory τ → ℕ} {mode : Word} {deltatime : TimeSpec}

/-- The time limit alone decides. -/
theorem lastsAsAsked_iff {α : Type} {call : ℕ → Routine (Except Word α)}
    (hmode : mode &&& etWaitMask = etTimed) (hdelta : acceptsDelta (some deltatime) = true)
    {next : Memory τ → Memory τ}
    (hnext : ∀ m, clock (next m) = clock m + (netTiming mode deltatime.pair).1.nanoSec)
    {m : Memory τ}
    (hcall : ∀ fuel, converse (L.commandLoop big) (call fuel) (.quiet (some m)) =
      (askAgain (mode &&& etWaitMask) (timesOut next) fuel (netTiming mode deltatime.pair).2 m).map
        fun p => (.error etErrorTimeout, .quiet (some p.1))) :
    LastsAsAsked L big clock m deltatime call ↔ deltatime.Kept := by
  have hwait : mode &&& etWaitMask ≠ etSleep := by
    rw [hmode]
    decide
  have hclock : ∀ {fuel p}, askAgain (mode &&& etWaitMask) (timesOut next) fuel
      (netTiming mode deltatime.pair).2 m = some p →
        clock p.1 = clock m + waitsFor mode deltatime := by
    intro fuel p h
    exact clock_askAgain hwait hnext h
  rw [← waitsFor_kept_iff hmode hdelta]
  constructor
  · rintro ⟨fuel, m', hconverse, hmin, hmax⟩
    rw [hcall, Option.map_eq_some_iff] at hconverse
    obtain ⟨p, hasked, hp⟩ := hconverse
    cases hp
    have hp := hclock hasked
    omega
  · rintro ⟨hmin, hmax⟩
    obtain ⟨p, hasked⟩ := exists_askAgain hwait next
      (Nat.lt_add_one (netTiming mode deltatime.pair).2.toNat) m
    have hp := hclock hasked
    refine ⟨(netTiming mode deltatime.pair).2.toNat + 1, p.1, ?_, ?_, ?_⟩
    · rw [hcall, hasked]
      rfl
    · omega
    · omega

variable (hL : L.TimesOut clock)
include hL

theorem run_eventGet_timesOut (att : Word) (t : Timing) (m : Memory τ) :
    L.commandLoop big (some m) (eventGetRequest att mode t) =
      some ((some (L.eventGet att t m).1, putWords [etErrorTimeout]), []) := by
  have hrun := L.run_eventGet big att mode t m []
  rw [List.append_nil] at hrun
  obtain ⟨m', hget⟩ := (hL.eventGet att t m).exists_eq
  rw [hrun, Local.getEvent, hget]
  rfl

theorem run_eventsGet_timesOut (att num : Word) (t : Timing) (m : Memory τ) :
    L.commandLoop big (some m) (eventsGetRequest att mode num t) =
      some ((some (L.eventsGet att t num m).1, putWords [etErrorTimeout]), []) := by
  have hrun := L.run_eventsGet big att mode num t m []
  rw [List.append_nil] at hrun
  obtain ⟨m', hget⟩ := (hL.eventsGet att t num m).exists_eq
  rw [hrun, Local.getEvents, hget]
  rfl

theorem run_eventNew_timesOut (att : Word) (t : Timing) (size : BitVec 64) (m : Memory τ) :
    L.commandLoop big (some m)
        (putWords [Command.evNew.code, att, t.wait, highInt size, lowInt size, t.sec, t.nsec]) =
      some ((some (L.eventNew att t size m).1, putWords [etErrorTimeout, 0, 0]), []) := by
  obtain ⟨m', hnew⟩ := (hL.eventNew att t size m).exists_eq
  rw [hnew, ← List.append_nil (putWords _), putWords_cons, List.append_assoc, run_commandLoop]
  refine run_bind_of (run_readWords (by rfl) _) ?_
  simp only [List.getD_cons_zero, List.getD_cons_succ, uint64_highInt_lowInt, hnew]
  rfl

theorem run_eventsNew_timesOut (att num : Word) (t : Timing) (size : BitVec 64) (m : Memory τ) :
    L.commandLoop big (some m)
        (putWords [Command.evsNew.code, att, t.wait, highInt size, lowInt size, num, t.sec,
          t.nsec]) =
      some ((some (L.eventsNew att t size num m).1, putWords [etErrorTimeout]), []) := by
  obtain ⟨m', hnew⟩ := (hL.eventsNew att t size num m).exists_eq
  rw [hnew, ← List.append_nil (putWords _), putWords_cons, List.append_assoc, run_commandLoop]
  refine run_bind_of (run_readWords (by rfl) _) ?_
  simp only [List.getD_cons_zero, List.getD_cons_succ, uint64_highInt_lowInt, hnew]
  rfl

theorem run_eventsNewGroup_timesOut (att num group : Word) (t : Timing) (size : BitVec 64)
    (m : Memory τ) :
    L.commandLoop big (some m)
        (putWords [Command.evsNewGrp.code, att, t.wait, highInt size, lowInt size, num, group,
          t.sec, t.nsec]) =
      some ((some (L.eventsNewGroup att t size num group m).1, putWords [etErrorTimeout]), []) := by
  obtain ⟨m', hnew⟩ := (hL.eventsNewGroup att t size num group m).exists_eq
  rw [hnew, ← List.append_nil (putWords _), putWords_cons, List.append_assoc, run_commandLoop]
  refine run_bind_of (run_readWords (by rfl) _) ?_
  simp only [List.getD_cons_zero, List.getD_cons_succ, uint64_highInt_lowInt, hnew]
  rfl

variable (hmode : mode &&& etWaitMask = etTimed) (hdelta : acceptsDelta (some deltatime) = true)
include hmode hdelta

theorem eventGet_lasts_iff (att : Word) (m : Memory τ) :
    LastsAsAsked L big clock m deltatime
      (fun fuel => etrEventGet big fuel att mode deltatime.pair) ↔ deltatime.Kept := by
  apply lastsAsAsked_iff hmode hdelta
    (fun m => (hL.eventGet att (netTiming mode deltatime.pair).1 m).2)
  intro fuel
  exact converse_etrRetry_timesOut [] (isNotOk_failure failureTimeout) rfl
    (run_eventGet_timesOut hL att (netTiming mode deltatime.pair).1) fuel _ m

theorem eventsGet_lasts_iff (att num : Word) (m : Memory τ) :
    LastsAsAsked L big clock m deltatime
      (fun fuel => etrEventsGet big fuel att mode num deltatime.pair) ↔ deltatime.Kept := by
  apply lastsAsAsked_iff hmode hdelta
    (fun m => (hL.eventsGet att (netTiming mode deltatime.pair).1 num m).2)
  intro fuel
  exact converse_etrRetry_timesOut [] (isNegative_failure failureTimeout) rfl
    (run_eventsGet_timesOut hL att num (netTiming mode deltatime.pair).1) fuel _ m

theorem eventNew_lasts_iff (esize : BitVec 64) (att : Word) (size : BitVec 64) (m : Memory τ) :
    LastsAsAsked L big clock m deltatime
      (fun fuel => etrEventNew fuel esize att mode deltatime.pair size) ↔ deltatime.Kept := by
  apply lastsAsAsked_iff hmode hdelta
    (fun m => (hL.eventNew att (netTiming mode deltatime.pair).1 size m).2)
  intro fuel
  exact converse_etrRetry_timesOut [0, 0] (isNotOk_failure failureTimeout) rfl
    (run_eventNew_timesOut hL att (netTiming mode deltatime.pair).1 size) fuel _ m

theorem eventsNew_lasts_iff (esize : BitVec 64) (att num : Word) (size : BitVec 64)
    (m : Memory τ) :
    LastsAsAsked L big clock m deltatime
      (fun fuel => etrEventsNew fuel esize att mode deltatime.pair size num) ↔
        deltatime.Kept := by
  apply lastsAsAsked_iff hmode hdelta
    (fun m => (hL.eventsNew att (netTiming mode deltatime.pair).1 size num m).2)
  intro fuel
  exact converse_etrRetry_timesOut [] (isNegative_failure failureTimeout) rfl
    (run_eventsNew_timesOut hL att num (netTiming mode deltatime.pair).1 size) fuel _ m

theorem eventsNewGroup_lasts_iff (esize : BitVec 64) (att num group : Word) (size : BitVec 64)
    (m : Memory τ) :
    LastsAsAsked L big clock m deltatime
      (fun fuel => etrEventsNewGroup fuel esize att mode deltatime.pair size num group) ↔
        deltatime.Kept := by
  apply lastsAsAsked_iff hmode hdelta
    (fun m => (hL.eventsNewGroup att (netTiming mode deltatime.pair).1 size num group m).2)
  intro fuel
  exact converse_etrRetry_timesOut [] (isNegative_failure failureTimeout) rfl
    (run_eventsNewGroup_timesOut hL att num group (netTiming mode deltatime.pair).1 size) fuel _ m

/-- **Exactly which time limits remote calls keep** when every request times out: the same in
all five routines. -/
theorem timeouts_last_iff (big : Bool) (esize : BitVec 64) (att num group : Word)
    (size : BitVec 64) (m : Memory τ) :
    (LastsAsAsked L big clock m deltatime
        (fun fuel => etrEventGet big fuel att mode deltatime.pair) ↔ deltatime.Kept) ∧
      (LastsAsAsked L big clock m deltatime
        (fun fuel => etrEventsGet big fuel att mode num deltatime.pair) ↔ deltatime.Kept) ∧
      (LastsAsAsked L big clock m deltatime
        (fun fuel => etrEventNew fuel esize att mode deltatime.pair size) ↔ deltatime.Kept) ∧
      (LastsAsAsked L big clock m deltatime
        (fun fuel => etrEventsNew fuel esize att mode deltatime.pair size num) ↔
          deltatime.Kept) ∧
      (LastsAsAsked L big clock m deltatime
        (fun fuel => etrEventsNewGroup fuel esize att mode deltatime.pair size num group) ↔
          deltatime.Kept) :=
  ⟨eventGet_lasts_iff hL hmode hdelta att m, eventsGet_lasts_iff hL hmode hdelta att num m,
    eventNew_lasts_iff hL hmode hdelta esize att size m,
    eventsNew_lasts_iff hL hmode hdelta esize att num size m,
    eventsNewGroup_lasts_iff hL hmode hdelta esize att num group size m⟩

end

/-- A system in which there is never an event, and whose state is the time waited so far. -/
def Local.waiting : Local ℕ where
  exec _ m := (m, ⟨etOk, default⟩)
  eventGet _ t m := ({ m with sys := m.sys + t.nanoSec }, .error failureTimeout)
  eventsGet _ t _ m := ({ m with sys := m.sys + t.nanoSec }, .error failureTimeout)
  eventNew _ t _ m := ({ m with sys := m.sys + t.nanoSec }, .error failureTimeout)
  eventsNew _ t _ _ m := ({ m with sys := m.sys + t.nanoSec }, .error failureTimeout)
  eventsNewGroup _ t _ _ _ m := ({ m with sys := m.sys + t.nanoSec }, .error failureTimeout)
  eventPut _ _ m := (m, etOk)
  eventsPut _ _ m := (m, etOk)
  eventDump _ _ m := (m, etOk)
  eventsDump _ _ m := (m, etOk)
  wakeupAttachment _ m := m
  wakeupAll _ m := m
  snapshot _ := none
  histogram _ := []

theorem Local.timesOut_waiting : Local.waiting.TimesOut Memory.sys where
  eventGet _ _ _ := ⟨rfl, rfl⟩
  eventsGet _ _ _ _ := ⟨rfl, rfl⟩
  eventNew _ _ _ _ := ⟨rfl, rfl⟩
  eventsNew _ _ _ _ _ := ⟨rfl, rfl⟩
  eventsNewGroup _ _ _ _ _ _ := ⟨rfl, rfl⟩

/-- Nothing has been waited for yet. -/
def Memory.noWait : Memory ℕ := ⟨0, fun _ => .blank⟩

/-- Two seconds and a nanosecond last as long. -/
theorem timeouts_last_example :
    LastsAsAsked Local.waiting false Memory.sys .noWait ⟨2, 1⟩
      (fun fuel => etrEventGet false fuel 1 etTimed (TimeSpec.pair ⟨2, 1⟩)) :=
  ((timeouts_last_iff Local.timesOut_waiting rfl (by decide) false 0 1 1 1 0 .noWait).1).mpr
    (by decide)

/-- Half a second lasts a second: the server is asked twice to wait for it. -/
theorem half_second_doubled :
    acceptsDelta (some ⟨0, 500000000⟩) = true ∧
      ¬ LastsAsAsked Local.waiting false Memory.sys .noWait ⟨0, 500000000⟩
        (fun fuel => etrEventGet false fuel 1 etTimed (TimeSpec.pair ⟨0, 500000000⟩)) := by
  refine ⟨rfl, ?_⟩
  rw [eventGet_lasts_iff Local.timesOut_waiting rfl rfl]
  decide

end EventTransfer
