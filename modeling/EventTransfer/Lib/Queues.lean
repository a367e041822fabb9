import Mathlib

/-!
# Queues

A queue loses elements anywhere, and gets new ones at its end.  As long as an element waits in it,
those in front of it only become fewer.

* `GoesOn` — what one step does to a queue.
* `Waiting` — a run during which an element is in the queue all the time.
* `Waiting.inFront_sublist` — nothing overtakes what is waiting.
-/

namespace Queues

universe u v

variable {α : Type u} {σ : Type v} {xs ys zs : List α} {e : α}

/-- **A queue goes on**: it loses elements, or gets some at its end. -/
inductive GoesOn (xs : List α) : List α → Prop
  | fewer {ys : List α} (h : ys.Sublist xs) : GoesOn xs ys
  | more (new : List α) : GoesOn xs (xs ++ new)

theorem GoesOn.refl (xs : List α) : GoesOn xs xs := .fewer (.refl xs)

/-- **A run during which `e` is in the queue** `q` in every state. -/
inductive Waiting (R : σ → σ → Prop) (q : σ → List α) (e : α) : σ → σ → Prop
  | refl {s : σ} (h : e ∈ q s) : Waiting R q e s s
  | step {s t u : σ} (run : Waiting R q e s t) (h : R t u) (here : e ∈ q u) : Waiting R q e s u

variable {R : σ → σ → Prop} {q : σ → List α} {s t : σ}

theorem Waiting.mem (h : Waiting R q e s t) : e ∈ q t := by
  cases h with
  | refl h => exact h
  | step _ _ h => exact h

variable [DecidableEq α]

/-- What is in front of `e` in a queue. -/
def inFront (e : α) (xs : List α) : List α := xs.takeWhile (· ≠ e)

theorem inFront_cons_self : inFront e (e :: xs) = [] := List.takeWhile_cons_of_neg (by simp)

theorem inFront_cons_of_ne {x : α} (h : x ≠ e) : inFront e (x :: xs) = x :: inFront e xs :=
  List.takeWhile_cons_of_pos (by simpa using h)

theorem inFront_append (h : e ∈ xs) : inFront e (xs ++ ys) = inFront e xs := by
  unfold inFront
  rw [List.takeWhile_append, if_neg]
  intro hlen
  have hall : xs.takeWhile (· ≠ e) = xs := (List.takeWhile_prefix _).eq_of_length hlen
  have hne := List.mem_takeWhile_imp (hall.symm ▸ h)
  simp at hne

theorem inFront_sublist (h : ys.Sublist xs) (hnodup : xs.Nodup) (he : e ∈ ys) :
    (inFront e ys).Sublist (inFront e xs) := by
  induction h with
  | slnil => exact .refl _
  | @cons ys xs x h ih =>
      rw [List.nodup_cons] at hnodup
      have hx : x ≠ e := fun heq => hnodup.1 (heq ▸ h.subset he)
      rw [inFront_cons_of_ne hx]
      exact (ih hnodup.2 he).cons x
  | @cons_cons ys xs x h ih =>
      rcases eq_or_ne x e with rfl | hx
      · rw [inFront_cons_self]
        exact List.nil_sublist _
      · rw [inFront_cons_of_ne hx, inFront_cons_of_ne hx]
        rw [List.nodup_cons] at hnodup
        exact (ih hnodup.2 ((List.mem_cons.mp he).resolve_left hx.symm)).cons_cons x

/-- **One step**: those in front of what stays in the queue become fewer. -/
theorem GoesOn.inFront_sublist (h : GoesOn xs ys) (hnodup : xs.Nodup) (hx : e ∈ xs) (hy : e ∈ ys) :
    (inFront e ys).Sublist (inFront e xs) := by
  cases h with
  | fewer h => exact Queues.inFront_sublist h hnodup hy
  | more new => rw [inFront_append hx]

/-- **Nothing overtakes what is waiting.** -/
theorem Waiting.inFront_sublist (hq : ∀ s t, R s t → (q s).Nodup ∧ GoesOn (q s) (q t))
    (h : Waiting R q e s t) : (inFront e (q t)).Sublist (inFront e (q s)) := by
  induction h with
  | refl => exact .refl _
  | step run hstep here ih =>
      obtain ⟨hnodup, hgoes⟩ := hq _ _ hstep
      exact (hgoes.inFront_sublist hnodup run.mem here).trans ih

end Queues
