import Mathlib

/-!
# Sorting by insertion with gaps

An array is a function on its indices, the elements to be sorted are those from `1` to `n`,
and `key` says what they are sorted by.

* `sift` — an element moves down in steps of a gap, while those it passes move up.
* `gapPass` — every element is sifted in, one after another.
* `gapSort` — passes with the gaps `…, 13, 4, 1`.
* `gapSort_perm` — the elements are permuted, and nothing else is touched.
* `gapSort_sorted` — the last pass, with gap `1`, sorts whatever the others have left.
-/

namespace GapSort

universe u

variable {α : Type u} (key : α → ℕ)

/-- **An element `v` moves down** from index `j` in steps of `inc`.  The first argument bounds
the number of steps. -/
def sift (inc : ℕ) (v : α) : ℕ → ℕ → (ℕ → α) → (ℕ → α)
  | 0, j, a => Function.update a j v
  | fuel + 1, j, a =>
      if key v < key (a (j - inc)) then
        let b := Function.update a j (a (j - inc))
        if j - inc ≤ inc then Function.update b (j - inc) v
        else sift inc v fuel (j - inc) b
      else Function.update a j v

/-- The elements from `inc + 1` to `n` are sifted in. -/
def gapPass (inc n : ℕ) (a : ℕ → α) : ℕ → α :=
  (List.range' (inc + 1) (n - inc)).foldl (fun a i => sift key inc (a i) i i a) a

/-- `1`, `4`, `13`, and so on. -/
def gap : ℕ → ℕ
  | 0 => 1
  | k + 1 => gap k * 3 + 1

/-- The first gap from number `k` on that is above `n`. -/
def firstGap (n : ℕ) : ℕ → ℕ → ℕ
  | 0, k => k
  | fuel + 1, k => if gap k ≤ n then firstGap n fuel (k + 1) else k

/-- Passes with the gaps below number `k`, in descending order. -/
def gapPasses (n : ℕ) : ℕ → (ℕ → α) → (ℕ → α)
  | 0, a => a
  | k + 1, a => gapPasses n k (gapPass key (gap k) n a)

/-- **The sort.** -/
def gapSort (n : ℕ) (a : ℕ → α) : ℕ → α := gapPasses key n (firstGap n n 1) a

/-! ### The elements are permuted -/

/-- The elements from `1` to `n` of `a` are permuted to make `b`. -/
def Permutes (n : ℕ) (a b : ℕ → α) : Prop :=
  ∃ σ : Equiv.Perm ℕ, (∀ i, 1 ≤ σ i ∧ σ i ≤ n ↔ 1 ≤ i ∧ i ≤ n) ∧ b = a ∘ σ

variable {key}

theorem Permutes.refl (n : ℕ) (a : ℕ → α) : Permutes n a a :=
  ⟨1, fun _ => Iff.rfl, rfl⟩

theorem Permutes.trans {n : ℕ} {a b c : ℕ → α} (hab : Permutes n a b) (hbc : Permutes n b c) :
    Permutes n a c := by
  obtain ⟨σ, hσ, rfl⟩ := hab
  obtain ⟨τ, hτ, rfl⟩ := hbc
  exact ⟨σ * τ, fun i => (hσ (τ i)).trans (hτ i), rfl⟩

/-- Two elements change places. -/
theorem permutes_swap {n i j : ℕ} (hi : 1 ≤ i ∧ i ≤ n) (hj : 1 ≤ j ∧ j ≤ n) (a : ℕ → α) :
    Permutes n a (a ∘ Equiv.swap i j) := by
  refine ⟨Equiv.swap i j, fun k => ?_, rfl⟩
  rcases eq_or_ne k i with rfl | hki
  · rw [Equiv.swap_apply_left]
    exact iff_of_true hj hi
  · rcases eq_or_ne k j with rfl | hkj
    · rw [Equiv.swap_apply_right]
      exact iff_of_true hi hj
    · rw [Equiv.swap_apply_of_ne_of_ne hki hkj]

/-- The element at `j - inc` moves up to `j`, and `v` comes down: the array with `v` at `j` has
two elements changed. -/
theorem update_down {a : ℕ → α} {v : α} {i j : ℕ} (hij : i ≠ j) :
    Function.update (Function.update a j (a i)) i v =
      Function.update a j v ∘ Equiv.swap j i := by
  funext k
  rw [Function.comp_apply]
  rcases eq_or_ne k i with rfl | hki
  · rw [Equiv.swap_apply_right, Function.update_self, Function.update_self]
  · rw [Function.update_of_ne hki]
    rcases eq_or_ne k j with rfl | hkj
    · rw [Equiv.swap_apply_left, Function.update_self, Function.update_of_ne hij]
    · rw [Equiv.swap_apply_of_ne_of_ne hkj hki, Function.update_of_ne hkj,
        Function.update_of_ne hkj]

theorem sift_perm (key : α → ℕ) {inc n : ℕ} (hinc : 0 < inc) (v : α) (fuel : ℕ) {j : ℕ} (hj : inc < j)
    (hn : j ≤ n) (a : ℕ → α) :
    Permutes n (Function.update a j v) (sift key inc v fuel j a) := by
  induction fuel generalizing j a with
  | zero => exact .refl n _
  | succ fuel ih =>
      have hdown := update_down (a := a) (v := v) (show j - inc ≠ j by omega)
      have hswap := permutes_swap (i := j) (j := j - inc) (by omega) (by omega : _ ∧ _ ≤ n)
        (Function.update a j v)
      rw [← hdown] at hswap
      unfold sift
      split
      · dsimp only
        split
        · exact hswap
        · exact hswap.trans (ih (by omega) (by omega) _)
      · exact .refl n _

theorem gapPass_perm {inc : ℕ} (hinc : 0 < inc) (n : ℕ) (a : ℕ → α) :
    Permutes n a (gapPass key inc n a) := by
  have hfold : ∀ (is : List ℕ) (a : ℕ → α), (∀ i ∈ is, inc < i ∧ i ≤ n) →
      Permutes n a (is.foldl (fun a i => sift key inc (a i) i i a) a) := by
    intro is
    induction is with
    | nil => exact fun a _ => .refl n a
    | cons i is ih =>
        intro a his
        obtain ⟨hi, hn⟩ := his i List.mem_cons_self
        have hstep := sift_perm key hinc (a i) i hi hn a
        rw [Function.update_eq_self] at hstep
        exact hstep.trans (ih _ fun k hk => his k (List.mem_cons_of_mem i hk))
  refine hfold _ a fun i hi => ?_
  rw [List.mem_range'_1] at hi
  omega

theorem gap_pos (k : ℕ) : 0 < gap k := by
  cases k with
  | zero => exact Nat.one_pos
  | succ k => exact Nat.succ_pos _

theorem gapPasses_perm (n k : ℕ) (a : ℕ → α) : Permutes n a (gapPasses key n k a) := by
  induction k generalizing a with
  | zero => exact .refl n a
  | succ k ih => exact (gapPass_perm (gap_pos k) n a).trans (ih _)

/-- **The elements are permuted.** -/
theorem gapSort_perm (n : ℕ) (a : ℕ → α) : Permutes n a (gapSort key n a) :=
  gapPasses_perm n _ a

/-! ### The elements are sorted -/

/-- The elements from `1` to `n` are in order. -/
def Sorted (key : α → ℕ) (n : ℕ) (a : ℕ → α) : Prop :=
  ∀ i j, 1 ≤ i → i ≤ j → j ≤ n → key (a i) ≤ key (a j)

/-- **One element is sifted in**: what is left out of order is at index `j` alone. -/
theorem sift_sorted {n : ℕ} {v : α} {fuel j : ℕ} (hfuel : j ≤ fuel + 1) (hj : 1 < j) (hn : j ≤ n)
    {a : ℕ → α} (hsorted : ∀ x y, 1 ≤ x → x ≤ y → y ≤ n → x ≠ j → y ≠ j → key (a x) ≤ key (a y))
    (habove : ∀ y, j < y → y ≤ n → key v ≤ key (a y)) :
    Sorted key n (sift key 1 v fuel j a) := by
  induction fuel generalizing j a with
  | zero => omega
  | succ fuel ih =>
      unfold sift
      split
      case isTrue hlt =>
        dsimp only
        -- the element below moves up, and index `j - 1` takes the place of `j`
        have hup : ∀ x, x ≠ j → Function.update a j (a (j - 1)) x = a x := fun x hx =>
          Function.update_of_ne hx ..
        have hat : Function.update a j (a (j - 1)) j = a (j - 1) := Function.update_self ..
        have hsorted' : ∀ x y, 1 ≤ x → x ≤ y → y ≤ n → x ≠ j - 1 → y ≠ j - 1 →
            key (Function.update a j (a (j - 1)) x) ≤ key (Function.update a j (a (j - 1)) y) := by
          intro x y hx hxy hy hx' hy'
          rcases eq_or_ne x j with rfl | hxj
          · rcases eq_or_ne y x with rfl | hyx
            · exact le_refl _
            · rw [hat, hup y hyx]
              exact hsorted _ _ (by omega) (by omega) hy (by omega) hyx
          · rcases eq_or_ne y j with rfl | hyj
            · rw [hat, hup x hxj]
              exact hsorted _ _ hx (by omega) (by omega) hxj (by omega)
            · rw [hup x hxj, hup y hyj]
              exact hsorted _ _ hx hxy hy hxj hyj
        have habove' : ∀ y, j - 1 < y → y ≤ n →
            key v ≤ key (Function.update a j (a (j - 1)) y) := by
          intro y hy hyn
          rcases eq_or_ne y j with rfl | hyj
          · rw [hat]
            exact hlt.le
          · rw [hup y hyj]
            exact habove y (by omega) hyn
        split
        case isTrue hend =>
          intro x y hx hxy hy
          rcases eq_or_ne x (j - 1) with rfl | hx'
          · rw [Function.update_self]
            rcases eq_or_ne y (j - 1) with rfl | hy'
            · rw [Function.update_self]
            · rw [Function.update_of_ne hy']
              exact habove' y (by omega) hy
          · have hy' : y ≠ j - 1 := by omega
            rw [Function.update_of_ne hx', Function.update_of_ne hy']
            exact hsorted' x y hx hxy hy hx' hy'
        case isFalse hmore => exact ih (by omega) (by omega) (by omega) hsorted' habove'
      case isFalse hle =>
        intro x y hx hxy hy
        rcases eq_or_ne x j with rfl | hxj
        · rw [Function.update_self]
          rcases eq_or_ne y x with rfl | hyx
          · rw [Function.update_self]
          · rw [Function.update_of_ne hyx]
            exact habove y (by omega) hy
        · rw [Function.update_of_ne hxj]
          rcases eq_or_ne y j with rfl | hyj
          · rw [Function.update_self]
            have := hsorted x (y - 1) hx (by omega) (by omega) hxj (by omega)
            omega
          · rw [Function.update_of_ne hyj]
            exact hsorted x y hx hxy hy hxj hyj

/-- **A pass with gap `1` sorts.** -/
theorem gapPass_one_sorted (n : ℕ) (a : ℕ → α) : Sorted key n (gapPass key 1 n a) := by
  have hfold : ∀ (m k : ℕ) (a : ℕ → α), Sorted key k a → 1 ≤ k →
      Sorted key (k + m)
        ((List.range' (k + 1) m).foldl (fun a i => sift key 1 (a i) i i a) a) := by
    intro m
    induction m with
    | zero => exact fun k a h _ => h
    | succ m ih =>
        intro k a h hk
        rw [List.range'_succ, List.foldl_cons]
        have hnext : Sorted key (k + 1) (sift key 1 (a (k + 1)) (k + 1) (k + 1) a) := by
          refine sift_sorted (by omega) (by omega) (le_refl _) ?_ fun y hy hyk => ?_
          · exact fun x y hx hxy hy hx' hy' => h x y hx hxy (by omega)
          · omega
        have := ih (k + 1) _ hnext (by omega)
        rwa [show k + 1 + m = k + (m + 1) by omega] at this
  rcases Nat.lt_or_ge n 1 with hn | hn
  · intro i j hi hij hj
    omega
  · have hone : Sorted key 1 a := by
      intro i j hi hij hj
      obtain rfl : i = j := by omega
      exact le_refl _
    have := hfold (n - 1) 1 a hone (le_refl 1)
    rwa [show 1 + (n - 1) = n by omega] at this

theorem gapPasses_sorted (n k : ℕ) (a : ℕ → α) :
    Sorted key n (gapPasses key n (k + 1) a) := by
  induction k generalizing a with
  | zero => exact gapPass_one_sorted n a
  | succ k ih => exact ih _

theorem le_firstGap (n fuel k : ℕ) : k ≤ firstGap n fuel k := by
  induction fuel generalizing k with
  | zero => exact le_refl k
  | succ fuel ih =>
      unfold firstGap
      split
      · exact (Nat.le_succ k).trans (ih (k + 1))
      · exact le_refl k

/-- **The elements are sorted.** -/
theorem gapSort_sorted (n : ℕ) (a : ℕ → α) : Sorted key n (gapSort key n a) := by
  obtain ⟨k, hk⟩ := Nat.exists_eq_add_of_le' (le_firstGap n n 1)
  unfold gapSort
  rw [hk]
  exact gapPasses_sorted n k a

end GapSort
