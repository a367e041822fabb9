import Mathlib

/-!
# Numbering consecutive blocks

`number k sizes` numbers the members of consecutive blocks: the members of the first block have
the number `k`, those of the next one `k + 1`, and so on.  `countDown` is the loop that does
this with one counter: it takes the next block when the counter is at zero.

* `length_number`, `count_number`, `mem_number` — there are as many members as the sizes say,
  each block has its size, and no other number is given.
* `countDown_eq` — with positive sizes the loop gives these numbers.
-/

namespace Blocks

/-- **The numbers of the members**, block by block. -/
def number : ℕ → List ℕ → List ℕ
  | _, [] => []
  | k, size :: sizes => List.replicate size k ++ number (k + 1) sizes

theorem length_number (k : ℕ) (sizes : List ℕ) : (number k sizes).length = sizes.sum := by
  induction sizes generalizing k with
  | nil => rfl
  | cons size sizes ih => simp only [number, List.length_append, List.length_replicate, ih,
      List.sum_cons]

/-- The numbers given are those of the blocks. -/
theorem mem_number {k a : ℕ} {sizes : List ℕ} (h : a ∈ number k sizes) :
    k ≤ a ∧ a < k + sizes.length := by
  induction sizes generalizing k with
  | nil => cases h
  | cons size sizes ih =>
      rw [number, List.mem_append] at h
      rw [List.length_cons]
      rcases h with h | h
      · have := (List.mem_replicate.mp h).2
        omega
      · obtain ⟨hle, hlt⟩ := ih h
        omega

/-- **Each block has its size.** -/
theorem count_number (k : ℕ) (sizes : List ℕ) (i : ℕ) (h : i < sizes.length) :
    (number k sizes).count (k + i) = sizes[i] := by
  induction sizes generalizing k i with
  | nil => cases h
  | cons size sizes ih =>
      rw [number, List.count_append, List.count_replicate]
      cases i with
      | zero =>
          have hnot : k + 0 ∉ number (k + 1) sizes := fun hmem => by
            have := (mem_number hmem).1
            omega
          rw [List.count_eq_zero_of_not_mem hnot]
          simp
      | succ i =>
          have hne : ¬ (k == k + (i + 1)) = true := by simp
          have hnext : k + (i + 1) = k + 1 + i := by omega
          rw [if_neg hne, Nat.zero_add, hnext, ih (k + 1) i (by simpa using h)]
          rfl

/-- **The loop**: `n` members are left, `index` blocks have been begun and `count` members of
the last of them are still to come. -/
def countDown (sizes : ℕ → ℤ) : ℕ → ℕ → ℤ → List ℕ
  | 0, _, _ => []
  | n + 1, index, count =>
      if count = 0 then (index + 1) :: countDown sizes n (index + 1) (sizes index - 1)
      else index :: countDown sizes n index (count - 1)

/-- The rest of a block. -/
theorem countDown_replicate (sizes : ℕ → ℤ) (n index count : ℕ) :
    countDown sizes (count + n) index count =
      List.replicate count index ++ countDown sizes n index 0 := by
  induction count with
  | zero => rw [Nat.zero_add]; rfl
  | succ count ih =>
      have hpos : ¬ ((count + 1 : ℕ) : ℤ) = 0 := by omega
      rw [Nat.add_right_comm, countDown, if_neg hpos, List.replicate_succ, List.cons_append, ← ih]
      congr 2
      omega

/-- **The loop numbers the blocks**, when the sizes are positive and add up to the number of
members. -/
theorem countDown_eq (sizes : ℕ → ℤ) (index : ℕ) (rest : List ℕ)
    (hsizes : ∀ i (h : i < rest.length), sizes (index + i) = rest[i] ∧ 0 < rest[i]) :
    countDown sizes rest.sum index 0 = number (index + 1) rest := by
  induction rest generalizing index with
  | nil => rfl
  | cons size rest ih =>
      obtain ⟨hsize, hpos⟩ := hsizes 0 (by simp)
      rw [List.getElem_cons_zero] at hsize hpos
      obtain ⟨m, rfl⟩ := Nat.exists_eq_add_of_le' (show 1 ≤ size from hpos)
      have hrest := ih (index + 1) fun i hi => by
        obtain ⟨h, hp⟩ := hsizes (i + 1) (by simpa using hi)
        rw [List.getElem_cons_succ] at h hp
        rw [← h]
        exact ⟨by congr 1; omega, by omega⟩
      have hcount : sizes index - 1 = (m : ℤ) := by
        rw [Nat.add_zero] at hsize
        omega
      rw [List.sum_cons, Nat.add_right_comm, countDown, if_pos rfl, hcount, countDown_replicate,
        hrest, number, List.replicate_succ, List.cons_append]

end Blocks
