import EventTransfer.InputQueue

/-!
# Readers asleep on a list of the Java system

`EventList` is the list of the Java system.  Its methods are synchronized, or called by a
conductor that holds the list's monitor, and `get` waits in the monitor for events.  So a step
here is one stay in the monitor: from a call, or from the end of a wait, to the next wait or
to the return.  Some of the ways to add events notify one waiting reader (`put`,
`putReverse`), some all of them (the conductors, after `putInLow` and `putAll`), and `putInGC`
notifies nobody.

As for the lists of the C system (`EventTransfer.InputQueue`) a reader should not sleep beside
an event it would take.  It can, since `putInGC` does not notify and `put` notifies one reader
of any kind for a whole batch.  `JavaList.Heard` says of a step that nobody concerned is left
asleep, and `JavaList.Inv` is the counting invariant of runs made of such steps.
-/

namespace EventTransfer

open StepRun Tally

/-! ## The methods -/

/-- The two methods `get` in the mode `sleep`. -/
inductive JavaGet
  | get (quantity : ℕ)
  | getGroup (quantity group : ℕ)
  deriving DecidableEq, Repr

/-- The kind of reader: the group whose events it takes, or `none` if it takes any. -/
def JavaGet.kind : JavaGet → Option ℕ
  | get _ => none
  | getGroup _ group => some group

/-- How a method that adds events tells the readers. -/
inductive Notify
  | nobody
  | one
  | all
  deriving DecidableEq, Repr

/-- **The ways to add events.**  `conductorLow` and `conductorAll` are `putInLow` and `putAll`
as conductors use them: in a synchronized block, and followed by `notifyAll`. -/
inductive JavaPut
  | put (newEvents : List ℕ)
  | putReverse (newEvents : List ℕ)
  | putInGC (newEvents : List ℕ)
  | conductorLow (newEvents : List ℕ)
  | conductorAll (newEvents : List ℕ)
  deriving DecidableEq, Repr

def JavaPut.newEvents : JavaPut → List ℕ
  | put es | putReverse es | putInGC es | conductorLow es | conductorAll es => es

variable (hdr : ℕ → EventHeader)

/-- The loop of `put`: low-priority events go to the end and others to the place `lastHigh`.
Where the list is shorter than that, `add` throws, and the last component is `false`. -/
def putLoop : ℕ → List ℕ → List ℕ → ℕ × List ℕ × Bool
  | lastHigh, events, [] => (lastHigh, events, true)
  | lastHigh, events, ev :: rest =>
      if isHigh hdr ev then
        if lastHigh ≤ events.length then
          putLoop (lastHigh + 1) (events.insertIdx lastHigh ev) rest
        else (lastHigh + 1, events, false)
      else putLoop lastHigh (events ++ [ev]) rest

/-- The loop of `putReverse`: low-priority events go behind the high-priority ones, and these
to the front. -/
def putReverseLoop : ℕ → List ℕ → List ℕ → ℕ × List ℕ
  | lastHigh, events, [] => (lastHigh, events)
  | lastHigh, events, ev :: rest =>
      if isHigh hdr ev then putReverseLoop (lastHigh + 1) (ev :: events) rest
      else putReverseLoop lastHigh (events.insertIdx lastHigh ev) rest

/-- A client's thread: what it gets, and how far it is. -/
inductive JavaPc
  | idle
  | waiting
  | notified
  deriving DecidableEq, Repr

structure JavaReader where
  call : JavaGet
  pc : JavaPc
  deriving DecidableEq, Repr

/-- **A list and its readers.** -/
structure JavaList (ι : Type) where
  events : List ℕ
  lastHigh : ℕ
  reader : ι → JavaReader

/-- What `get` does with the list when it is called, and when its wait is over: it takes
events and returns, or waits.  `quantity` is cut down to the size of the list, and stays so. -/
def JavaGet.attempt (events : List ℕ) : JavaGet → List ℕ × JavaReader
  | get quantity =>
      if events.length < 1 then (events, ⟨get quantity, .waiting⟩)
      else (events.drop (min quantity events.length), ⟨get quantity, .idle⟩)
  | getGroup quantity group =>
      if events.length < 1 then (events, ⟨getGroup quantity group, .waiting⟩)
      else
        let quantity := min quantity events.length
        -- the count is compared after an event has been added
        let out := takeWhere (wants hdr (some group)) (max 1 quantity) events
        if out.1 = [] then (events, ⟨getGroup quantity group, .waiting⟩)
        else (out.2, ⟨getGroup quantity group, .idle⟩)

/-- The steps.  `put` has the reader that is notified, where one is. -/
inductive JavaAct (ι : Type)
  | get (i : ι) (call : JavaGet)
  | resume (i : ι)
  | wake (i : ι)
  | put (post : JavaPut) (target : Option ι)
  deriving DecidableEq, Repr

namespace JavaList

variable {ι : Type} [DecidableEq ι] (s : JavaList ι)

def setReader (i : ι) (r : JavaReader) : JavaList ι :=
  { s with reader := Function.update s.reader i r }

/-- The reader comes to have the monitor. -/
def attempt (i : ι) (call : JavaGet) : JavaList ι :=
  let r := call.attempt hdr s.events
  { s.setReader i r.2 with events := r.1 }

/-- What a method does to the list, and whom it notifies. -/
def add : JavaPut → JavaList ι × Notify
  | .put es =>
      let r := putLoop hdr (if s.events = [] then 0 else s.lastHigh) s.events es
      ({ s with lastHigh := r.1, events := r.2.1 }, if r.2.2 then .one else .nobody)
  | .putReverse es =>
      let r := putReverseLoop hdr (s.events.takeWhile (isHigh hdr)).length s.events es
      ({ s with lastHigh := r.1, events := r.2 }, .one)
  | .putInGC es => ({ s with events := s.events ++ es }, .nobody)
  | .conductorLow es => ({ s with events := s.events ++ es }, .all)
  | .conductorAll es => ({ s with events := llistWrite (isHigh hdr) s.events es }, .all)

/-- `notify` and `notifyAll`: one arbitrary reader of those that wait, or all. -/
def notify [Fintype ι] : Notify → Option ι → Option (JavaList ι)
  | .nobody, none => some s
  | .one, some i =>
      if (s.reader i).pc = .waiting then some (s.setReader i { s.reader i with pc := .notified })
      else none
  | .one, none => if ∀ i, (s.reader i).pc ≠ .waiting then some s else none
  | .all, none =>
      some { s with reader := fun i =>
        if (s.reader i).pc = .waiting then { s.reader i with pc := .notified } else s.reader i }
  | _, _ => none

/-- One step.  A wait may also end without a notification, or by an interrupt, which `get`
ignores. -/
def step [Fintype ι] : JavaAct ι → Option (JavaList ι)
  | .get i call => if (s.reader i).pc = .idle then some (s.attempt hdr i call) else none
  | .resume i =>
      if (s.reader i).pc = .notified then some (s.attempt hdr i (s.reader i).call) else none
  | .wake i =>
      if (s.reader i).pc = .waiting then
        some (s.setReader i { s.reader i with pc := .notified })
      else none
  | .put post target => (s.add hdr post).1.notify (s.add hdr post).2 target

end JavaList

/-- The transition system.  At the start nobody reads; the list may hold events. -/
def javaList (ι : Type) [Fintype ι] [DecidableEq ι] : Machine (JavaList ι) (JavaAct ι) :=
  Machine.ofStep (fun s => ∀ i, (s.reader i).pc = .idle) (fun s a => s.step hdr a)

/-! ## Sleepers and notified readers -/

/-- The notified readers of kind `k`, as far as this one is concerned. -/
def JavaReader.due (k : Option ℕ) (r : JavaReader) : ℕ :=
  if r.pc = .notified ∧ r.call.kind = k then 1 else 0

namespace JavaList

variable {ι : Type} (s : JavaList ι)

/-- **No reader sleeps beside its events**: where one waits that has not been notified, the
list has no event it would take, or a notified reader has still to run. -/
def NoneBeside : Prop :=
  ∀ i, (s.reader i).pc = .waiting →
    (∀ e ∈ s.events, wants hdr (s.reader i).call.kind e = false) ∨
      ∃ j, (s.reader j).pc = .notified

/-- **The steps that tell those concerned.**  A read asks for an event at least.  Of a reader
that stays asleep, a batch has no event; or it has one, and the reader notified is of the same
kind. -/
def Heard : JavaAct ι → Prop
  | .get _ (.get quantity) => 1 ≤ quantity
  | .put post target =>
      (s.add hdr post).2 = .all ∨ ∀ j, some j ≠ target → (s.reader j).pc = .waiting →
        post.newEvents.countP (wants hdr (s.reader j).call.kind) ≤
          if target.map (fun i => (s.reader i).call.kind) = some (s.reader j).call.kind then 1
          else 0
  | _ => True

/-- **What holds in every state**: the events for a sleeping reader are no more than the
notified readers of its kind. -/
structure Inv [Fintype ι] : Prop where
  asks : ∀ i quantity, (s.reader i).call = .get quantity → (s.reader i).pc ≠ .idle → 1 ≤ quantity
  announced : ∀ i, (s.reader i).pc = .waiting →
    s.events.countP (wants hdr (s.reader i).call.kind) ≤
      tally (JavaReader.due (s.reader i).call.kind) s.reader

end JavaList

/-! ### What the methods do to the counts -/

section Counts

variable {hdr}

theorem countP_insertIdx_le (p : ℕ → Bool) (xs : List ℕ) (n e : ℕ) :
    (xs.insertIdx n e).countP p ≤ (e :: xs).countP p := by
  rcases Nat.lt_or_ge xs.length n with hn | hn
  · rw [List.insertIdx_of_length_lt hn]
    exact (List.sublist_cons_self e xs).countP_le
  · exact ((List.perm_insertIdx e xs hn).countP_eq p).le

theorem countP_putLoop_le (p : ℕ → Bool) (n : ℕ) (xs es : List ℕ) :
    (putLoop hdr n xs es).2.1.countP p ≤ xs.countP p + es.countP p := by
  induction es generalizing n xs with
  | nil => exact Nat.le_add_right _ _
  | cons e es ih =>
      have hcons := List.countP_cons (p := p) (a := e) (l := es)
      have hxs := List.countP_cons (p := p) (a := e) (l := xs)
      unfold putLoop
      split
      · split
        · have := ih (n + 1) (xs.insertIdx n e)
          have := countP_insertIdx_le p xs n e
          omega
        · exact Nat.le_add_right _ _
      · have := ih n (xs ++ [e])
        rw [List.countP_append, List.countP_singleton] at this
        omega

theorem countP_putReverseLoop_le (p : ℕ → Bool) (n : ℕ) (xs es : List ℕ) :
    (putReverseLoop hdr n xs es).2.countP p ≤ xs.countP p + es.countP p := by
  induction es generalizing n xs with
  | nil => exact Nat.le_add_right _ _
  | cons e es ih =>
      have hcons := List.countP_cons (p := p) (a := e) (l := es)
      have hxs := List.countP_cons (p := p) (a := e) (l := xs)
      unfold putReverseLoop
      split
      · have := ih (n + 1) (e :: xs)
        omega
      · have := ih n (xs.insertIdx n e)
        have := countP_insertIdx_le p xs n e
        omega

/-- Nothing comes into the list but the new events, and no reader moves. -/
theorem JavaList.countP_add {ι : Type} (s : JavaList ι) (hdr : ℕ → EventHeader) (post : JavaPut) (p : ℕ → Bool)
    (h : (s.add hdr post).2 ≠ .all) :
    (s.add hdr post).1.events.countP p ≤ s.events.countP p + post.newEvents.countP p := by
  cases post with
  | put es => exact countP_putLoop_le p _ _ _
  | putReverse es => exact countP_putReverseLoop_le p _ _ _
  | putInGC es => exact (List.countP_append ..).le
  | conductorLow es => exact absurd rfl h
  | conductorAll es => exact absurd rfl h

theorem JavaList.reader_add {ι : Type} (s : JavaList ι) (hdr : ℕ → EventHeader) (post : JavaPut) :
    (s.add hdr post).1.reader = s.reader := by
  cases post <;> rfl

/-- **What a reader does** once it has the monitor: it waits only when there is nothing for
it, and otherwise takes an event of its kind, if there is one. -/
structure JavaGet.Attempted (hdr : ℕ → EventHeader) (call : JavaGet) (xs ys : List ℕ)
    (r : JavaReader) : Prop where
  kind : r.call.kind = call.kind
  pc : r.pc ≠ .notified
  waits : r.pc = .waiting → xs.countP (wants hdr call.kind) = 0
  asks : ∀ quantity, r.call = .get quantity → call = .get quantity
  le : ∀ k, ys.countP (wants hdr k) ≤ xs.countP (wants hdr k)
  progress : ys.countP (wants hdr call.kind) = 0 ∨
    ys.countP (wants hdr call.kind) + 1 ≤ xs.countP (wants hdr call.kind)

theorem JavaGet.attempted (hdr : ℕ → EventHeader) (call : JavaGet) (xs : List ℕ)
    (hq : ∀ quantity, call = .get quantity → 1 ≤ quantity) :
    call.Attempted hdr xs (call.attempt hdr xs).1 (call.attempt hdr xs).2 := by
  cases call with
  | get quantity =>
      have hpos := hq quantity rfl
      rw [attempt]
      split
      · rename_i hlen
        obtain rfl : xs = [] := List.length_eq_zero_iff.mp (by omega)
        exact ⟨rfl, nofun, fun _ => rfl, fun _ h => h, fun _ => le_refl _, Or.inl rfl⟩
      · rename_i hlen
        refine ⟨rfl, nofun, nofun, fun _ h => h, fun k => (List.drop_sublist ..).countP_le,
          Or.inr ?_⟩
        have hall : ∀ ys : List ℕ, ys.countP (wants hdr none) = ys.length := fun ys =>
          List.countP_eq_length.mpr fun _ _ => rfl
        show (xs.drop _).countP (wants hdr none) + 1 ≤ xs.countP (wants hdr none)
        rw [hall, hall, List.length_drop]
        omega
  | getGroup quantity group =>
      rw [attempt]
      split
      · rename_i hlen
        obtain rfl : xs = [] := List.length_eq_zero_iff.mp (by omega)
        exact ⟨rfl, nofun, fun _ => rfl, nofun, fun _ => le_refl _, Or.inl rfl⟩
      · have hcount : (takeWhere (wants hdr (some group)) (max 1 (min quantity xs.length)) xs).1.length +
            (takeWhere (wants hdr (some group)) (max 1 (min quantity xs.length)) xs).2.countP
              (wants hdr (some group)) = xs.countP (wants hdr (some group)) := countP_takeWhere
        dsimp only
        split
        · rename_i hnone
          have hzero : xs.countP (wants hdr (some group)) = 0 := by
            refine List.countP_eq_zero.mpr fun e he hw => ?_
            exact takeWhere_fst_ne_nil (by omega) he hw hnone
          exact ⟨rfl, nofun, fun _ => hzero, nofun, fun _ => le_refl _, Or.inl hzero⟩
        · rename_i hsome
          have := List.length_pos_of_ne_nil hsome
          refine ⟨rfl, nofun, nofun, nofun, fun k => takeWhere_snd_sublist.countP_le, Or.inr ?_⟩
          show (takeWhere (wants hdr (some group)) _ xs).2.countP (wants hdr (some group)) + 1 ≤
            xs.countP (wants hdr (some group))
          omega

end Counts

/-! ### What one step preserves -/

theorem JavaReader.due_of_ne (k : Option ℕ) {r : JavaReader} (h : r.pc ≠ .notified) :
    r.due k = 0 := if_neg fun hr => h hr.1

namespace JavaList

variable {hdr} {ι : Type} [Fintype ι] {s : JavaList ι}

/-- A reader with the monitor takes its notification along only with an event, or when there
is none for it. -/
theorem Inv.attempt [DecidableEq ι] (h : s.Inv hdr) {i : ι} {call : JavaGet}
    (hq : ∀ quantity, call = .get quantity → 1 ≤ quantity)
    (hcall : (s.reader i).pc = .notified → (s.reader i).call = call) :
    (s.attempt hdr i call).Inv hdr := by
  have hatt := call.attempted hdr s.events hq
  set r := (call.attempt hdr s.events).2 with hr
  set ys := (call.attempt hdr s.events).1 with hys
  refine ⟨fun j quantity hj hpc => ?_, fun j hj => ?_⟩
  · change (Function.update s.reader i r j).call = _ at hj
    change (Function.update s.reader i r j).pc ≠ _ at hpc
    rcases eq_or_ne j i with rfl | hji
    · rw [Function.update_self] at hj
      exact hq quantity (hatt.asks quantity hj)
    · rw [Function.update_of_ne hji] at hj hpc
      exact h.asks j quantity hj hpc
  · change (Function.update s.reader i r j).pc = _ at hj
    change ys.countP (wants hdr (Function.update s.reader i r j).call.kind) ≤
      tally (JavaReader.due (Function.update s.reader i r j).call.kind) (Function.update s.reader i r)
    rcases eq_or_ne j i with rfl | hji
    · rw [Function.update_self] at hj ⊢
      have := hatt.le r.call.kind
      have := hatt.waits hj
      rw [hatt.kind] at *
      omega
    · rw [Function.update_of_ne hji] at hj ⊢
      have hup := tally_update (JavaReader.due (s.reader j).call.kind) s.reader i r
      rw [JavaReader.due_of_ne _ hatt.pc] at hup
      have hold := h.announced j hj
      have hle := hatt.le (s.reader j).call.kind
      by_cases hdue : (s.reader i).pc = .notified ∧ (s.reader i).call.kind = (s.reader j).call.kind
      · have hone : (s.reader i).due (s.reader j).call.kind = 1 := if_pos hdue
        have := hatt.progress
        rw [← hcall hdue.1, hdue.2] at this
        omega
      · have hzero : (s.reader i).due (s.reader j).call.kind = 0 := if_neg hdue
        omega

/-- A waiting reader is notified: the events for the other sleepers may become one more, for
readers of its kind. -/
theorem Inv.notifyOne [DecidableEq ι] (h : s.Inv hdr) {i : ι} {xs : List ℕ} {n : ℕ}
    (hi : (s.reader i).pc = .waiting)
    (hcount : ∀ j, j ≠ i → (s.reader j).pc = .waiting →
      xs.countP (wants hdr (s.reader j).call.kind) ≤
        s.events.countP (wants hdr (s.reader j).call.kind) +
          if (s.reader i).call.kind = (s.reader j).call.kind then 1 else 0) :
    Inv hdr ({ s with events := xs, lastHigh := n }.setReader i
      { s.reader i with pc := .notified }) := by
  have hne : (s.reader i).pc ≠ .idle := by rw [hi]; exact nofun
  refine ⟨fun j quantity hj hpc => ?_, fun j hj => ?_⟩
  · change (Function.update s.reader i _ j).call = _ at hj
    change (Function.update s.reader i _ j).pc ≠ _ at hpc
    rcases eq_or_ne j i with rfl | hji
    · rw [Function.update_self] at hj
      exact h.asks j quantity hj hne
    · rw [Function.update_of_ne hji] at hj hpc
      exact h.asks j quantity hj hpc
  · rcases eq_or_ne j i with rfl | hji
    · simp [setReader] at hj
    · have hup := tally_update (JavaReader.due (s.reader j).call.kind) s.reader i
        { s.reader i with pc := .notified }
      have hr : Function.update s.reader i { s.reader i with pc := .notified } j = s.reader j :=
        Function.update_of_ne hji ..
      change (Function.update s.reader i { s.reader i with pc := .notified } j).pc = _ at hj
      change xs.countP (wants hdr (Function.update s.reader i _ j).call.kind) ≤
        tally (JavaReader.due (Function.update s.reader i _ j).call.kind) (Function.update s.reader i _)
      rw [hr] at hj ⊢
      rw [JavaReader.due_of_ne _ (by rw [hi]; exact nofun)] at hup
      have hnew : JavaReader.due (s.reader j).call.kind { s.reader i with pc := .notified } =
          if (s.reader i).call.kind = (s.reader j).call.kind then 1 else 0 := by
        simp [JavaReader.due]
      have := hcount j hji hj
      have := h.announced j hj
      omega

/-- The methods that add events. -/
theorem Inv.put [DecidableEq ι] (h : s.Inv hdr) {post : JavaPut} {target : Option ι}
    {t : JavaList ι} (ok : s.Heard hdr (.put post target))
    (hstep : (s.add hdr post).1.notify (s.add hdr post).2 target = some t) : t.Inv hdr := by
  have hreader := s.reader_add hdr post
  have hcount := fun p => s.countP_add hdr post p
  rcases hadd : s.add hdr post with ⟨u, how⟩
  rw [hadd] at hstep hreader hcount
  rcases u with ⟨xs, n, reader⟩
  obtain rfl : reader = s.reader := hreader
  cases how with
  | all =>
      cases target with
      | some i => cases hstep
      | none =>
          cases hstep
          refine ⟨fun j quantity hj hpc => ?_, fun j hj => ?_⟩
          · dsimp only at hj hpc
            split at hj
            · exact h.asks j quantity hj (by rw [‹(s.reader j).pc = _›]; exact nofun)
            · rw [if_neg ‹_›] at hpc
              exact h.asks j quantity hj hpc
          · dsimp only at hj
            split at hj
            · cases hj
            · exact absurd hj ‹_›
  | nobody =>
      have hle := fun p => hcount p nofun
      have ok' := ok.resolve_left (by rw [hadd]; exact nofun)
      cases target with
      | some i => cases hstep
      | none =>
          cases hstep
          refine ⟨h.asks, fun j hj => ?_⟩
          have h0 := ok' j nofun hj
          have := h.announced j hj
          have := hle (wants hdr (s.reader j).call.kind)
          rw [if_neg nofun] at h0
          change xs.countP (wants hdr (s.reader j).call.kind) ≤
            tally (JavaReader.due (s.reader j).call.kind) s.reader
          dsimp only at this
          omega
  | one =>
      have hle := fun p => hcount p nofun
      have ok' := ok.resolve_left (by rw [hadd]; exact nofun)
      cases target with
      | none =>
          rw [JavaList.notify, Option.ite_none_right_eq_some] at hstep
          obtain ⟨hnone, hstep⟩ := hstep
          cases hstep
          exact ⟨h.asks, fun j hj => absurd hj (hnone j)⟩
      | some i =>
          rw [JavaList.notify, Option.ite_none_right_eq_some] at hstep
          obtain ⟨hi, hstep⟩ := hstep
          cases hstep
          refine h.notifyOne hi fun j hji hj => ?_
          have h0 := ok' j (by simpa using hji) hj
          have := hle (wants hdr (s.reader j).call.kind)
          simp only [Option.map_some, Option.some.injEq] at h0
          dsimp only at this
          omega

/-- **One step.** -/
theorem Inv.step [DecidableEq ι] (h : s.Inv hdr) {a : JavaAct ι} {t : JavaList ι}
    (ok : s.Heard hdr a) (hstep : s.step hdr a = some t) : t.Inv hdr := by
  cases a with
  | get i call =>
      simp only [JavaList.step, Option.ite_none_right_eq_some, Option.some.injEq] at hstep
      obtain ⟨hidle, rfl⟩ := hstep
      refine h.attempt (fun quantity hq => ?_) fun hn => absurd (hidle.symm.trans hn) nofun
      subst hq
      exact ok
  | resume i =>
      simp only [JavaList.step, Option.ite_none_right_eq_some, Option.some.injEq] at hstep
      obtain ⟨hnot, rfl⟩ := hstep
      exact h.attempt (fun quantity hq => h.asks i quantity hq (by rw [hnot]; exact nofun))
        fun _ => rfl
  | wake i =>
      simp only [JavaList.step, Option.ite_none_right_eq_some, Option.some.injEq] at hstep
      obtain ⟨hwait, rfl⟩ := hstep
      exact h.notifyOne hwait fun j _ _ => Nat.le_add_right _ _
  | put post target => exact h.put ok hstep

/-- Where the events for a sleeper are announced, a notified reader has still to run. -/
theorem Inv.noneBeside (h : s.Inv hdr) : s.NoneBeside hdr := by
  intro i hi
  rcases Nat.eq_zero_or_pos (s.events.countP (wants hdr (s.reader i).call.kind)) with h0 | hpos
  · refine Or.inl fun e he => ?_
    simpa using List.countP_eq_zero.mp h0 e he
  · obtain ⟨j, hj⟩ := exists_of_tally_pos (hpos.trans_le (h.announced i hi))
    refine Or.inr ⟨j, ?_⟩
    by_contra hne
    exact absurd hj (by rw [JavaReader.due_of_ne _ hne]; exact lt_irrefl 0)

instance (s : JavaList ι) : Decidable (s.NoneBeside hdr) := inferInstanceAs (Decidable (∀ _, _))

instance (s : JavaList ι) [DecidableEq ι] : ∀ a : JavaAct ι, Decidable (s.Heard hdr a)
  | .get _ (.get _) => inferInstanceAs (Decidable (_ ≤ _))
  | .put _ _ => inferInstanceAs (Decidable (_ ∨ ∀ _, _))
  | .get _ (.getGroup _ _) | .resume _ | .wake _ => inferInstanceAs (Decidable True)

end JavaList

/-- **No reader sleeps beside its events** in a run whose notifications reach those
concerned. -/
theorem javaReaders_none_beside {ι : Type} [Fintype ι] [DecidableEq ι] (hdr : ℕ → EventHeader)
    {s : JavaList ι} (h : (javaList hdr ι).Reach (fun s a => s.Heard hdr a) s) :
    s.NoneBeside hdr := by
  have hinv : s.Inv hdr := by
    apply h.invariant
    · intro s hs
      exact ⟨fun i _ _ hpc => absurd (hs i) hpc, fun i hi => absurd ((hs i).symm.trans hi) nofun⟩
    · intro s a t hi ok hstep
      exact hi.step ok hstep
  exact hinv.noneBeside

/-- Two clients, and no events. -/
def emptyJavaList : JavaList (Fin 2) where
  events := []
  lastHigh := 0
  reader _ := ⟨.get 1, .idle⟩

/-- Both clients wait, an event is put and one of them is notified; the other sleeps, and the
notified one has still to run. -/
theorem javaReaders_none_beside_example :
    ∃ s, (javaList (fun _ => .init) (Fin 2)).Reach (fun s a => s.Heard (fun _ => .init) a) s ∧
      (s.reader 1).pc = .waiting ∧ s.events = [0] ∧ s.NoneBeside fun _ => .init := by
  have hrun : ((Machine.runActs (fun s a => s.step (fun _ => .init) a)
      (fun s a => s.Heard (fun _ => .init) a)
      [.get 0 (.get 1), .get 1 (.get 1), .put (.put [0]) (some 0)] emptyJavaList).map
        fun s => ((s.reader 1).pc, s.events)) = some (.waiting, [0]) := by decide
  obtain ⟨s, hs, hend⟩ := Option.map_eq_some_iff.mp hrun
  have run : (javaList (fun _ => .init) (Fin 2)).Reach (fun s a => s.Heard (fun _ => .init) a) s :=
    Machine.reach_of_runActs (.start fun _ => rfl) hs
  obtain ⟨hwait, hevents⟩ := Prod.mk.injEq .. ▸ hend
  exact ⟨s, run, hwait, hevents, javaReaders_none_beside _ run⟩

/-- **`putInGC` notifies nobody.**  A client waits, an event is dumped, and the client sleeps
beside it. -/
theorem putInGC_leaves_sleeper :
    ∃ s, (javaList (fun _ => .init) (Fin 2)).Reach (fun _ _ => True) s ∧
      ¬ s.NoneBeside fun _ => .init := by
  have hrun : ((Machine.runActs (fun s a => s.step (fun _ => .init) a) (fun _ _ => True)
      [.get 0 (.get 1), .put (.putInGC [0]) none] emptyJavaList).map
        fun s => decide (s.NoneBeside fun _ => .init)) = some false := by decide
  obtain ⟨s, hs, hend⟩ := Option.map_eq_some_iff.mp hrun
  exact ⟨s, Machine.reach_of_runActs (.start fun _ => rfl) hs, of_decide_eq_false hend⟩

end EventTransfer
