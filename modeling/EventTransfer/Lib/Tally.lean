import Mathlib

/-!
# Counting over the members of a family

`tally w f` adds the weights of all members of a finite family `f`.  A step of a transition
system changes one member at a time, and `tally_update` says what that does to the sum; the
rest of a proof about sums is then arithmetic.
-/

namespace Tally

universe u v

variable {ι : Type u} {σ : Type v} [Fintype ι]

/-- **The sum of the weights** of a family's members. -/
def tally (w : σ → ℕ) (f : ι → σ) : ℕ := ∑ i, w (f i)

/-- One member changes: its old weight goes and its new weight comes. -/
theorem tally_update [DecidableEq ι] (w : σ → ℕ) (f : ι → σ) (i : ι) (x : σ) :
    tally w (Function.update f i x) + w (f i) = tally w f + w x := by
  have hcomp : (fun j => w (Function.update f i x j)) =
      Function.update (fun j => w (f j)) i (w x) := by
    ext j
    rcases eq_or_ne j i with rfl | hj
    · simp only [Function.update_self]
    · simp only [Function.update_of_ne hj]
  have hold := Finset.sum_erase_add Finset.univ (fun j => w (f j)) (Finset.mem_univ i)
  unfold tally
  rw [hcomp, Finset.sum_update_of_mem (Finset.mem_univ i), ← hold,
    Finset.sdiff_singleton_eq_erase]
  omega

/-- A member of the same weight takes another's place. -/
theorem tally_update_of_eq [DecidableEq ι] {w : σ → ℕ} {f : ι → σ} {i : ι} {x : σ}
    (h : w x = w (f i)) : tally w (Function.update f i x) = tally w f := by
  have := tally_update w f i x
  omega

/-- The sum is at least the weight of any member. -/
theorem le_tally (w : σ → ℕ) (f : ι → σ) (i : ι) : w (f i) ≤ tally w f :=
  Finset.single_le_sum (f := fun j => w (f j)) (fun _ _ => Nat.zero_le _) (Finset.mem_univ i)

/-- A sum that is not zero has a member that is not. -/
theorem exists_of_tally_pos {w : σ → ℕ} {f : ι → σ} (h : 0 < tally w f) : ∃ i, 0 < w (f i) := by
  obtain ⟨i, -, hi⟩ := Finset.exists_ne_zero_of_sum_ne_zero (Nat.pos_iff_ne_zero.mp h)
  exact ⟨i, Nat.pos_of_ne_zero hi⟩

/-- **Sums over some of the members**: the same for a family that is changed at one of them. -/
theorem sum_update {α : Type u} [DecidableEq α] {S : Finset α} {a : α} (ha : a ∈ S) (f : α → ℕ)
    (x : ℕ) : ∑ b ∈ S, Function.update f a x b + f a = ∑ b ∈ S, f b + x := by
  have hold := Finset.sum_erase_add S f ha
  rw [Finset.sum_update_of_mem ha, ← hold, Finset.sdiff_singleton_eq_erase]
  omega

/-- The same with weights: one member of the family changes. -/
theorem sum_weight_update {α : Type u} [DecidableEq α] {S : Finset α} {a : α} (ha : a ∈ S)
    (w : σ → ℕ) (f : α → σ) (x : σ) :
    ∑ b ∈ S, w (Function.update f a x b) + w (f a) = ∑ b ∈ S, w (f b) + w x := by
  have hcomp : (fun b => w (Function.update f a x b)) =
      Function.update (fun b => w (f b)) a (w x) := by
    ext b
    rcases eq_or_ne b a with rfl | hb
    · simp only [Function.update_self]
    · simp only [Function.update_of_ne hb]
  rw [hcomp]
  exact sum_update ha (fun b => w (f b)) (w x)

/-- Counting along a range is a sum over it. -/
theorem countP_range (p : ℕ → Bool) (n : ℕ) :
    (List.range n).countP p = ∑ i ∈ Finset.range n, if p i = true then 1 else 0 := by
  induction n with
  | zero => rfl
  | succ n ih =>
      rw [List.range_succ, List.countP_append, Finset.sum_range_succ, ih, List.countP_singleton]

end Tally
