import Mathlib

/-!
# Runs of a transition system

A `Machine σ α` has states `σ` and labelled steps `α`.  `M.Reach P s` says that `s` is
reached by a run all of whose steps meet `P`: a condition on the state before a step and on
the step itself.  With `P := fun _ _ => True` these are the reachable states.

* `Reach.invariant` — what holds at the start and is preserved by every step that meets `P`
  holds of every state reached.
* `Reach.weaken` — a run that meets `P` meets anything `P` implies.
* `reach_of_runActs` — where steps are computed, a list of steps is a run.
-/

namespace StepRun

universe u v

/-- **A transition system**: its initial states and its labelled steps. -/
structure Machine (σ : Type u) (α : Type v) where
  start : σ → Prop
  step : σ → α → σ → Prop

namespace Machine

variable {σ : Type u} {α : Type v} {M : Machine σ α} {P Q : σ → α → Prop} {s : σ}

/-- The states reached by runs whose steps all meet `P`. -/
inductive Reach (M : Machine σ α) (P : σ → α → Prop) : σ → Prop
  | start {s : σ} (h : M.start s) : Reach M P s
  | step {s t : σ} (a : α) (run : Reach M P s) (ok : P s a) (h : M.step s a t) : Reach M P t

/-- **Invariants.**  What the start has and every step of the run keeps, every state
reached has. -/
theorem Reach.invariant {Inv : σ → Prop} (h : M.Reach P s) (start : ∀ s, M.start s → Inv s)
    (step : ∀ s a t, Inv s → P s a → M.step s a t → Inv t) : Inv s := by
  induction h with
  | start h => exact start _ h
  | step a _ ok h ih => exact step _ a _ ih ok h

/-- A run that meets `P` meets what `P` implies. -/
theorem Reach.weaken (h : M.Reach P s) (hPQ : ∀ s a, P s a → Q s a) : M.Reach Q s := by
  induction h with
  | start h => exact .start h
  | step a _ ok h ih => exact .step a ih (hPQ _ _ ok) h

/-- The machine whose steps are computed by `f`; `none` is a step that is not possible. -/
def ofStep (start : σ → Prop) (f : σ → α → Option σ) : Machine σ α where
  start := start
  step s a t := f s a = some t

/-- Take the given steps, as long as each meets `P` and is possible. -/
def runActs (f : σ → α → Option σ) (P : σ → α → Prop) [∀ s a, Decidable (P s a)] :
    List α → σ → Option σ
  | [], s => some s
  | a :: acts, s => if P s a then (f s a).bind (runActs f P acts) else none

theorem reach_of_runActs {start : σ → Prop} {f : σ → α → Option σ} [∀ s a, Decidable (P s a)]
    {acts : List α} {t : σ} (hs : (ofStep start f).Reach P s)
    (h : runActs f P acts s = some t) : (ofStep start f).Reach P t := by
  induction acts generalizing s with
  | nil => exact Option.some.inj h ▸ hs
  | cons a acts ih =>
      rw [runActs, Option.ite_none_right_eq_some] at h
      obtain ⟨hok, h⟩ := h
      obtain ⟨r, hr, h⟩ := Option.bind_eq_some_iff.mp h
      exact ih (.step a hs hok hr) h

end Machine

end StepRun
