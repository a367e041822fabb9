import Mathlib

/-!
# Water-filling

Containers `1` to `n` hold `level i`, and `total` more is shared out among them one by one,
each time to a container that holds the least.  `WaterFilling` says that shares are the
outcome, without saying how they were found.

They can be found in rounds, where the containers are sorted by what they hold: those on the
lowest level, which are the first `k`, are raised to the next level (`Level.raise`), until what
is left does not reach that far and is spread over them (`Level.spread`).
-/

namespace WaterFill

open Finset

/-- **Shares are water-filling**: they add up to the total, and no container that gets
something ends more than one above another. -/
structure WaterFilling (n : ℕ) (level share : ℕ → ℕ) (total : ℕ) : Prop where
  total : ∑ i ∈ Icc 1 n, share i = total
  balanced : ∀ i ∈ Icc 1 n, ∀ j ∈ Icc 1 n, 0 < share i →
    level i + share i ≤ level j + share j + 1

/-- Between rounds: whatever got something holds `min`, and no container holds less. -/
structure Level (n : ℕ) (level share : ℕ → ℕ) (min total : ℕ) : Prop where
  total : ∑ i ∈ Icc 1 n, share i = total
  low : ∀ i ∈ Icc 1 n, min ≤ level i + share i
  filled : ∀ i ∈ Icc 1 n, 0 < share i → level i + share i = min

variable {n k min next total : ℕ} {level share : ℕ → ℕ}

/-- Only what holds of the containers matters. -/
theorem WaterFilling.congr {level' share' : ℕ → ℕ} (h : WaterFilling n level share total)
    (hlevel : ∀ i ∈ Icc 1 n, level' i = level i) (hshare : ∀ i ∈ Icc 1 n, share' i = share i) :
    WaterFilling n level' share' total := by
  refine ⟨(sum_congr rfl hshare).trans h.total, fun i hi j hj hpos => ?_⟩
  rw [hshare i hi] at hpos ⊢
  rw [hshare j hj, hlevel i hi, hlevel j hj]
  exact h.balanced i hi j hj hpos

theorem Level.congr {share' : ℕ → ℕ} (h : Level n level share min total)
    (hshare : ∀ i ∈ Icc 1 n, share' i = share i) : Level n level share' min total := by
  refine ⟨(sum_congr rfl hshare).trans h.total, fun i hi => ?_, fun i hi hpos => ?_⟩
  · rw [hshare i hi]
    exact h.low i hi
  · rw [hshare i hi] at hpos ⊢
    exact h.filled i hi hpos

/-- Nothing has been shared out yet. -/
theorem level_start (h : ∀ i ∈ Icc 1 n, min ≤ level i) : Level n level (fun _ => 0) min 0 :=
  ⟨sum_eq_zero fun _ _ => rfl, h, fun _ _ hpos => absurd hpos (lt_irrefl 0)⟩

/-- **The first `k` containers hold the least**, and the others have got nothing and hold `next`
at least, which is more. -/
structure Lowest (n : ℕ) (level share : ℕ → ℕ) (min next k : ℕ) : Prop where
  le : k ≤ n
  pos : 0 < k
  low : ∀ i ∈ Icc 1 k, level i + share i = min
  high : ∀ i ∈ Icc 1 n, k < i → next ≤ level i ∧ share i = 0
  above : k < n → min < next

/-- Adding `e i` to the first `k` shares adds as much to their sum. -/
theorem sum_add_first (e : ℕ → ℕ) (hk : k ≤ n) :
    ∑ i ∈ Icc 1 n, (share i + if i ≤ k then e i else 0) =
      ∑ i ∈ Icc 1 n, share i + ∑ i ∈ Icc 1 k, e i := by
  rw [sum_add_distrib, ← sum_filter]
  congr 2
  ext i
  simp only [mem_filter, mem_Icc]
  omega

/-- **A round**: the lowest are raised to the next level. -/
theorem Level.raise (h : Level n level share min total) (hk : Lowest n level share min next k)
    (hkn : k < n) :
    Level n level (fun i => share i + if i ≤ k then next - min else 0) next
      (total + (next - min) * k) := by
  have hnext := hk.above hkn
  refine ⟨?_, fun i hi => ?_, fun i hi hpos => ?_⟩
  · rw [sum_add_first (fun _ => next - min) hk.le, h.total, sum_const, Nat.card_Icc, smul_eq_mul,
      Nat.add_sub_cancel, Nat.mul_comm]
  · rcases Nat.lt_or_ge k i with hik | hik
    · have := (hk.high i hi hik).1
      rw [if_neg (by omega)]
      omega
    · have := hk.low i (mem_Icc.mpr ⟨(mem_Icc.mp hi).1, hik⟩)
      rw [if_pos hik]
      omega
  · rcases Nat.lt_or_ge k i with hik | hik
    · have := (hk.high i hi hik).2
      rw [if_neg (by omega), this] at hpos
      exact absurd hpos (lt_irrefl 0)
    · have := hk.low i (mem_Icc.mpr ⟨(mem_Icc.mp hi).1, hik⟩)
      rw [if_pos hik]
      omega

/-- Everyone gets `m / k`, and the first `m % k` get one more. -/
theorem sum_div_mod (m : ℕ) (hk : 0 < k) :
    ∑ i ∈ Icc 1 k, (m / k + if i ≤ m % k then 1 else 0) = m := by
  have hmod := Nat.mod_lt m hk
  have hfirst : (Icc 1 k).filter (· ≤ m % k) = Icc 1 (m % k) := by
    ext i
    simp only [mem_filter, mem_Icc]
    omega
  rw [sum_add_distrib, ← sum_filter, hfirst, sum_const, sum_const, Nat.card_Icc, Nat.card_Icc,
    smul_eq_mul, smul_eq_mul, Nat.add_sub_cancel, Nat.add_sub_cancel, Nat.mul_one]
  exact Nat.div_add_mod m k

/-- **The last round**: what is left is spread over the lowest, and does not raise all of them
to the next level; or there is no other. -/
theorem Level.spread (h : Level n level share min total) (hk : Lowest n level share min next k)
    {m : ℕ} (hm : k = n ∨ m < (next - min) * k) :
    WaterFilling n level
      (fun i => share i + if i ≤ k then m / k + (if i ≤ m % k then 1 else 0) else 0)
      (total + m) := by
  have hkpos := hk.pos
  -- what everyone holds afterwards
  have hlow : ∀ i ∈ Icc 1 k, level i + share i = min := hk.low
  have hhigh : ∀ i ∈ Icc 1 n, k < i → min + m / k + 1 ≤ level i := by
    intro i hi hik
    have hin := (mem_Icc.mp hi).2
    have hlt : m < (next - min) * k := hm.resolve_left (by omega)
    have hdiv : m / k < next - min := Nat.div_lt_of_lt_mul (by rwa [Nat.mul_comm])
    have := (hk.high i hi hik).1
    generalize m / k = q at hdiv ⊢
    omega
  refine ⟨?_, fun i hi j hj hpos => ?_⟩
  · rw [sum_add_first (fun i => m / k + if i ≤ m % k then 1 else 0) hk.le, h.total,
      sum_div_mod m hkpos]
  · have hi1 := (mem_Icc.mp hi).1
    have hj1 := (mem_Icc.mp hj).1
    have htop : level i + (share i + if i ≤ k then m / k + (if i ≤ m % k then 1 else 0) else 0) ≤
        min + m / k + 1 := by
      rcases Nat.lt_or_ge k i with hik | hik
      · have := (hk.high i hi hik).2
        rw [if_neg (by omega), this] at hpos
        exact absurd hpos (lt_irrefl 0)
      · have := hlow i (mem_Icc.mpr ⟨hi1, hik⟩)
        rw [if_pos hik]
        split <;> omega
    have hbottom : min + m / k ≤
        level j + (share j + if j ≤ k then m / k + (if j ≤ m % k then 1 else 0) else 0) := by
      rcases Nat.lt_or_ge k j with hjk | hjk
      · have := hhigh j hj hjk
        omega
      · have := hlow j (mem_Icc.mpr ⟨hj1, hjk⟩)
        rw [if_pos hjk]
        omega
    omega

/-- When everything has been shared out between rounds, the shares are water-filling. -/
theorem Level.done (h : Level n level share min total) : WaterFilling n level share total := by
  refine ⟨h.total, fun i hi j hj hpos => ?_⟩
  have := h.filled i hi hpos
  have := h.low j hj
  omega

/-! ### The rises between rounds -/

/-- **The rises from one level to the next** that the rounds come to are within a bound: `min`
and `next` are levels with no other between them, and what is shared out does not just fill
the containers up to `min`. -/
def RisesWithin (bound n : ℕ) (level : ℕ → ℕ) (total : ℕ) : Prop :=
  ∀ i ∈ Icc 1 n, ∀ j ∈ Icc 1 n, level i < level j →
    (∀ l ∈ Icc 1 n, level l ≤ level i ∨ level j ≤ level l) →
      ∑ l ∈ Icc 1 n, (level i - level l) < total →
        (level j - level i) * {l ∈ Icc 1 n | level l ≤ level i}.card ≤ bound

/-- Between rounds the shares are what fills the containers up to `min`. -/
theorem Level.sum_fill (h : Level n level share min total) :
    ∑ l ∈ Icc 1 n, (min - level l) = total := by
  rw [← h.total]
  refine sum_congr rfl fun l hl => ?_
  have hlow := h.low l hl
  rcases Nat.eq_zero_or_pos (share l) with h0 | hpos
  · omega
  · have := h.filled l hl hpos
    omega

/-- The lowest containers are those that hold no more than `min` themselves. -/
theorem Lowest.card_le (hk : Lowest n level share min next k) :
    {l ∈ Icc 1 n | level l ≤ min}.card = k := by
  have heq : {l ∈ Icc 1 n | level l ≤ min} = Icc 1 k := by
    ext l
    rw [mem_filter, mem_Icc, mem_Icc]
    constructor
    · rintro ⟨hl, hle⟩
      refine ⟨hl.1, ?_⟩
      by_contra hkl
      have hhigh := (hk.high l (mem_Icc.mpr hl) (by omega)).1
      have := hk.above (by omega)
      omega
    · rintro ⟨h1, hlk⟩
      have hlow := hk.low l (mem_Icc.mpr ⟨h1, hlk⟩)
      have hn := hk.le
      exact ⟨⟨h1, by omega⟩, by omega⟩
  rw [heq, Nat.card_Icc, Nat.add_sub_cancel]

/-- A level above `min` is `next` at least. -/
theorem Lowest.next_le (hk : Lowest n level share min next k) {i : ℕ} (hi : i ∈ Icc 1 n)
    (hlt : min < level i) : k < i ∧ next ≤ level i := by
  have hik : k < i := by
    by_contra hle
    have := hk.low i (mem_Icc.mpr ⟨(mem_Icc.mp hi).1, by omega⟩)
    omega
  exact ⟨hik, (hk.high i hi hik).1⟩

/-- A round leaves more containers among the lowest. -/
theorem Lowest.card_lt (hk : Lowest n level share min next k) (hnext : level (k + 1) = next)
    (hkn : k < n) : k < {l ∈ Icc 1 n | level l ≤ next}.card := by
  have habove := hk.above hkn
  have hmem : k + 1 ∈ {l ∈ Icc 1 n | level l ≤ next} :=
    mem_filter.mpr ⟨mem_Icc.mpr ⟨by omega, by omega⟩, hnext.le⟩
  rw [← hk.card_le]
  refine card_lt_card (Finset.ssubset_iff_subset_ne.mpr ⟨fun l hl => ?_, fun heq => ?_⟩)
  · rw [mem_filter] at hl ⊢
    exact ⟨hl.1, by omega⟩
  · rw [← heq, mem_filter, hnext] at hmem
    omega

/-- To fill the containers up to a level above takes as many as up to `next`. -/
theorem Level.le_sum_fill (h : Level n level share min total)
    (hk : Lowest n level share min next k) (hkn : k < n) {m : ℕ} (hm : next ≤ m) :
    total + (next - min) * k ≤ ∑ l ∈ Icc 1 n, (m - level l) := by
  rw [← (h.raise hk hkn).sum_fill]
  exact sum_le_sum fun l _ => Nat.sub_le_sub_right hm _

/-- **The rises that the rounds come to** from the level `min` on meet a condition, which is about
what is left to be shared out and what the rise takes. -/
def RisesFrom (P : ℕ → ℕ → Prop) (n : ℕ) (level : ℕ → ℕ) (total min : ℕ) : Prop :=
  ∀ i ∈ Icc 1 n, ∀ j ∈ Icc 1 n, min ≤ level i → level i < level j →
    (∀ l ∈ Icc 1 n, level l ≤ level i ∨ level j ≤ level l) →
      ∑ l ∈ Icc 1 n, (level i - level l) < total →
        P (total - ∑ l ∈ Icc 1 n, (level i - level l))
          ((level j - level i) * {l ∈ Icc 1 n | level l ≤ level i}.card)

theorem risesWithin_iff {bound : ℕ} :
    RisesWithin bound n level total ↔ RisesFrom (fun _ rise => rise ≤ bound) n level total 0 :=
  ⟨fun h i hi j hj _ => h i hi j hj, fun h i hi j hj => h i hi j hj (Nat.zero_le _)⟩

/-- No container holds less than the lowest do. -/
theorem RisesFrom.of_low {P : ℕ → ℕ → Prop} (hlow : ∀ i ∈ Icc 1 n, min ≤ level i) :
    RisesFrom P n level total min ↔ RisesFrom P n level total 0 :=
  ⟨fun h i hi j hj _ => h i hi j hj (hlow i hi), fun h i hi j hj _ => h i hi j hj (Nat.zero_le _)⟩

/-- **A round**: the rise to the next level is the first, and the others begin there. -/
theorem Level.risesFrom_iff {P : ℕ → ℕ → Prop} {doled : ℕ} (h : Level n level share min doled)
    (hk : Lowest n level share min next k) (hmin : ∃ i ∈ Icc 1 n, level i = min)
    (hnext : k < n → level (k + 1) = next) :
    RisesFrom P n level total min ↔
      (doled < total → k < n →
        P (total - doled) ((next - min) * k) ∧ RisesFrom P n level total next) := by
  constructor
  · intro hrises hmore hkn
    obtain ⟨i, hi, himin⟩ := hmin
    have hk1 : k + 1 ∈ Icc 1 n := mem_Icc.mpr ⟨by omega, by omega⟩
    have habove := hk.above hkn
    refine ⟨?_, fun i hi j hj hle => hrises i hi j hj (by omega)⟩
    have hrise := hrises i hi (k + 1) hk1 himin.ge (by rw [hnext hkn]; omega) fun l hl => by
      rcases Nat.lt_or_ge min (level l) with hl' | hl'
      · exact .inr ((hnext hkn).le.trans (hk.next_le hl hl').2)
      · exact .inl (by omega)
    rw [himin, hk.card_le, h.sum_fill, hnext hkn] at hrise
    exact hrise hmore
  · intro hround i hi j hj hle hij hbetween hlt
    have hfilled : ∑ l ∈ Icc 1 n, (min - level l) ≤ ∑ l ∈ Icc 1 n, (level i - level l) :=
      sum_le_sum fun l _ => Nat.sub_le_sub_right hle _
    rw [h.sum_fill] at hfilled
    obtain ⟨hkj, hnextj⟩ := hk.next_le hj (by omega)
    have hkn : k < n := by
      have := (mem_Icc.mp hj).2
      omega
    obtain ⟨hrise, hrest⟩ := hround (by omega) hkn
    rcases eq_or_lt_of_le hle with himin | himin
    · -- no level is between `min` and `next`
      have habove := hk.above hkn
      have hup := (hbetween (k + 1) (mem_Icc.mpr ⟨by omega, by omega⟩)).resolve_left
        (by rw [hnext hkn]; omega)
      rw [hnext hkn] at hup
      rwa [← himin, hk.card_le, h.sum_fill, show level j = next by omega]
    · exact hrest i hi j hj (hk.next_le hi himin).2 hij hbetween hlt

/-- What does not reach the next level does not come to the rises from there on. -/
theorem Level.risesFrom_of_lt {P : ℕ → ℕ → Prop} {doled : ℕ} (h : Level n level share min doled)
    (hk : Lowest n level share min next k) (hkn : k < n)
    (hshort : total < doled + (next - min) * k) : RisesFrom P n level total next := by
  intro i _ j _ hle _ _ hlt
  have := h.le_sum_fill hk hkn hle
  omega

/-- The rises do not depend on the names of the containers. -/
theorem RisesFrom.reindex {P : ℕ → ℕ → Prop} {level' : ℕ → ℕ} (σ : Equiv.Perm ℕ)
    (hσ : ∀ i, 1 ≤ σ i ∧ σ i ≤ n ↔ 1 ≤ i ∧ i ≤ n) (hlevel : ∀ i, level' i = level (σ i)) :
    RisesFrom P n level' total min ↔ RisesFrom P n level total min := by
  have hmem : ∀ i, σ i ∈ Icc 1 n ↔ i ∈ Icc 1 n := fun i => by
    rw [mem_Icc, mem_Icc]
    exact hσ i
  have hall : ∀ p : ℕ → Prop, (∀ i ∈ Icc 1 n, p (σ i)) ↔ ∀ i ∈ Icc 1 n, p i := by
    intro p
    constructor
    · intro h i hi
      have := h (σ.symm i) ((hmem _).mp (by rwa [σ.apply_symm_apply]))
      rwa [σ.apply_symm_apply] at this
    · exact fun h i hi => h (σ i) ((hmem i).mpr hi)
  have hsum : ∀ m, ∑ l ∈ Icc 1 n, (m - level (σ l)) = ∑ l ∈ Icc 1 n, (m - level l) := fun m =>
    sum_equiv σ (fun i => (hmem i).symm) fun i _ => rfl
  have hcard : ∀ m, {l ∈ Icc 1 n | level (σ l) ≤ m}.card = {l ∈ Icc 1 n | level l ≤ m}.card := by
    intro m
    refine card_equiv σ fun l => ?_
    rw [mem_filter, mem_filter, hmem]
  unfold RisesFrom
  simp only [hlevel, hsum, hcard]
  rw [hall fun i => ∀ j ∈ Icc 1 n, min ≤ level i → level i < level (σ j) →
    (∀ l ∈ Icc 1 n, level (σ l) ≤ level i ∨ level (σ j) ≤ level (σ l)) →
      ∑ l ∈ Icc 1 n, (level i - level l) < total →
        P (total - ∑ l ∈ Icc 1 n, (level i - level l))
          ((level (σ j) - level i) * {l ∈ Icc 1 n | level l ≤ level i}.card)]
  refine forall₂_congr fun i _ => ?_
  rw [hall fun j => min ≤ level i → level i < level j →
    (∀ l ∈ Icc 1 n, level (σ l) ≤ level i ∨ level j ≤ level (σ l)) →
      ∑ l ∈ Icc 1 n, (level i - level l) < total →
        P (total - ∑ l ∈ Icc 1 n, (level i - level l))
          ((level j - level i) * {l ∈ Icc 1 n | level l ≤ level i}.card)]
  refine forall₂_congr fun j _ => forall₂_congr fun _ _ => ?_
  rw [hall fun l => level l ≤ level i ∨ level j ≤ level l]

/-- Containers may be named in another order. -/
theorem WaterFilling.reindex {level' share' : ℕ → ℕ} (σ : Equiv.Perm ℕ)
    (hσ : ∀ i, 1 ≤ σ i ∧ σ i ≤ n ↔ 1 ≤ i ∧ i ≤ n)
    (h : WaterFilling n (fun i => level' (σ i)) (fun i => share' (σ i)) total) :
    WaterFilling n level' share' total := by
  have hmem : ∀ i, σ i ∈ Icc 1 n ↔ i ∈ Icc 1 n := fun i => by
    rw [mem_Icc, mem_Icc]
    exact hσ i
  have hpre : ∀ j ∈ Icc 1 n, ∃ i ∈ Icc 1 n, σ i = j := fun j hj =>
    ⟨σ.symm j, (hmem _).mp (by rwa [σ.apply_symm_apply]), σ.apply_symm_apply j⟩
  refine ⟨?_, fun a ha b hb hpos => ?_⟩
  · rw [← h.total]
    exact (sum_equiv σ (fun i => (hmem i).symm) fun i _ => rfl).symm
  · obtain ⟨i, hi, rfl⟩ := hpre a ha
    obtain ⟨j, hj, rfl⟩ := hpre b hb
    exact h.balanced i hi j hj hpos

theorem waterFilling_reindex_iff {level' share' : ℕ → ℕ} (σ : Equiv.Perm ℕ)
    (hσ : ∀ i, 1 ≤ σ i ∧ σ i ≤ n ↔ 1 ≤ i ∧ i ≤ n) :
    WaterFilling n (fun i => level' (σ i)) (fun i => share' (σ i)) total ↔
      WaterFilling n level' share' total := by
  refine ⟨WaterFilling.reindex σ hσ, fun h => WaterFilling.reindex σ.symm (fun i => ?_) ?_⟩
  · have := hσ (σ.symm i)
    rw [σ.apply_symm_apply] at this
    exact this.symm
  · simpa only [σ.apply_symm_apply] using h

end WaterFill
