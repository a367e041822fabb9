import EventTransfer.JavaDistribution

/-!
# Equal-cue groups of the Java system

A conductor shares out the events that are left among the active members of an equal-cue group, so
that their input lists end up as even as they can.  It raises the shortest lists to the length of
the next one, round by round, and spreads what does not reach that far.

To see whether the events reach, it compares them with the product of the rise and the number of
lists to be raised, which is an `int` and may be any.  `ComparesRight` says that the comparison
comes out right all the same.  Where it does not, the lists are raised although the events do not
reach: what is handed out then is more than there is, or it is not even
(`Doled.not_waterFilling_spread`).

* `Doled.fillCues_spec` — the numbers found are water-filling just when every comparison is right.
* `hands_dealEqualCue` — what is dealt to the group then.
* `fits_of_dealEqualCue` — if the lists come out even, every comparison was right.
-/

namespace EventTransfer

open GapSort WaterFill

section EqualCue

open Finset JavaInt

variable {sorted : ℕ → ℕ × ℕ} {n : ℕ}

/-- How far a condition holds from the first element on. -/
theorem takeWhile_range' (p : ℕ → Bool) (a n : ℕ) :
    ((List.range' a n).takeWhile p).length ≤ n ∧
      (∀ i, a ≤ i → i < a + ((List.range' a n).takeWhile p).length → p i) ∧
      (((List.range' a n).takeWhile p).length < n →
        ¬ p (a + ((List.range' a n).takeWhile p).length)) := by
  induction n generalizing a with
  | zero => exact ⟨le_refl 0, fun i hi hlt => absurd hlt (by simpa using hi), nofun⟩
  | succ n ih =>
      rw [List.range'_succ, List.takeWhile_cons]
      split
      case isTrue ha =>
        obtain ⟨hle, hhold, hend⟩ := ih (a + 1)
        rw [List.length_cons]
        refine ⟨Nat.succ_le_succ hle, fun i hi hlt => ?_, fun hlt => ?_⟩
        · rcases eq_or_ne i a with rfl | hne
          · exact ha
          · exact hhold i (by omega) (by omega)
        · have := hend (by omega)
          rwa [Nat.add_right_comm] at this
      case isFalse ha =>
        refine ⟨Nat.zero_le _, fun i hi hlt => ?_, fun _ => ha⟩
        rw [List.length_nil] at hlt
        omega

/-- The places of the sorted cues are different. -/
def PlacesDiffer (sorted : ℕ → ℕ × ℕ) (n : ℕ) : Prop :=
  ∀ i ∈ Icc 1 n, ∀ j ∈ Icc 1 n, (sorted i).2 - 1 = (sorted j).2 - 1 → i = j

/-- **The lowest cues** are those that are counted: the first ones that have `min` events. -/
theorem lowest_takeWhile (hsorted : Sorted Prod.fst n sorted) (hn : 0 < n) {p : ℕ → Bool}
    {share : ℕ → ℕ} {min total : ℕ} (h : Level n (fun i => (sorted i).1) share min total)
    (hp : ∀ i ∈ Icc 1 n, p i ↔ (sorted i).1 + share i = min)
    (hfirst : (sorted 1).1 + share 1 = min) :
    Lowest n (fun i => (sorted i).1) share min
      (sorted (((List.range' 1 n).takeWhile p).length + 1)).1
      ((List.range' 1 n).takeWhile p).length := by
  obtain ⟨hle, hhold, hend⟩ := takeWhile_range' p 1 n
  generalize ((List.range' 1 n).takeWhile p).length = k at hle hhold hend ⊢
  have hpos : 0 < k := by
    by_contra hk
    obtain rfl : k = 0 := by omega
    exact hend hn ((hp 1 (mem_Icc.mpr ⟨le_refl 1, hn⟩)).mpr hfirst)
  have hnext : k < n → min < (sorted (k + 1)).1 := by
    intro hk
    have hkn : k + 1 ∈ Icc 1 n := mem_Icc.mpr ⟨by omega, by omega⟩
    have hne := hend hk
    rw [Nat.add_comm 1 k, hp (k + 1) hkn] at hne
    have hlow : min ≤ (sorted (k + 1)).1 + share (k + 1) := h.low (k + 1) hkn
    have hzero : ¬ 0 < share (k + 1) := fun hpos => hne (h.filled (k + 1) hkn hpos)
    omega
  refine ⟨hle, hpos, fun i hi => ?_, fun i hi hki => ?_, hnext⟩
  · rw [mem_Icc] at hi
    exact (hp i (mem_Icc.mpr ⟨hi.1, by omega⟩)).mp (hhold i hi.1 (by omega))
  · rw [mem_Icc] at hi
    have hup : (sorted (k + 1)).1 ≤ (sorted i).1 := hsorted (k + 1) i (by omega) (by omega) hi.2
    refine ⟨hup, ?_⟩
    by_contra hne
    -- a cue that got something would be among the lowest, and so would the next one
    have hfilled : (sorted i).1 + share i = min :=
      h.filled i (mem_Icc.mpr hi) (Nat.pos_of_ne_zero hne)
    have := hnext (by omega)
    omega

theorem giveFirst_apply (h : PlacesDiffer sorted n) (e : ℕ → ℤ) {k : ℕ} (hk : k ≤ n)
    (numEvents : ℕ → ℤ) {i : ℕ} (hi : i ∈ Icc 1 n) :
    giveFirst sorted e k numEvents ((sorted i).2 - 1) =
      if i ≤ k then wrap (numEvents ((sorted i).2 - 1) + e i)
      else numEvents ((sorted i).2 - 1) := by
  have hi1 := (mem_Icc.mp hi).1
  induction k with
  | zero => rw [giveFirst, if_neg (by omega)]
  | succ k ih =>
      have hrest := ih (by omega)
      rw [giveFirst]
      rcases eq_or_ne i (k + 1) with rfl | hne
      · rw [Function.update_self, hrest, if_neg (by omega), if_pos (le_refl _)]
      · have hplace : (sorted i).2 - 1 ≠ (sorted (k + 1)).2 - 1 := fun heq =>
          hne (h i hi (k + 1) (mem_Icc.mpr ⟨by omega, hk⟩) heq)
        rw [Function.update_of_ne hplace, hrest]
        by_cases hik : i ≤ k
        · rw [if_pos hik, if_pos (by omega)]
        · rw [if_neg hik, if_neg (by omega)]

/-- What each of `k` cues gets of `m` events. -/
theorem tdiv_share (m k i : ℕ) :
    (m : ℤ).tdiv k + (if (i : ℤ) ≤ (m : ℤ).tmod k then 1 else 0) =
      (m / k + if i ≤ m % k then 1 else 0 : ℕ) := by
  rw [← Int.ofNat_tdiv, ← Int.ofNat_tmod, Nat.cast_add]
  simp only [Nat.cast_le]
  split <;> rfl

/-- What each of them gets of a negative number of events: nobody gets one more. -/
theorem tdiv_share_neg (m k : ℕ) {i : ℕ} (hi : 0 < i) :
    (-(m : ℤ)).tdiv k + (if (i : ℤ) ≤ (-(m : ℤ)).tmod k then 1 else 0) = -(m / k : ℕ) := by
  have hmod : ¬ (i : ℤ) ≤ -((m % k : ℕ) : ℤ) := by omega
  rw [Int.neg_tdiv, Int.neg_tmod, ← Int.ofNat_tdiv, ← Int.ofNat_tmod, if_neg hmod, add_zero]

/-- **The comparison comes out right**: `left` events are fewer than `rise` just when the `int`s
say so, because the product is one, or because what it becomes is still more. -/
def ComparesRight (left rise : ℕ) : Prop := rise ≤ intMax ∨ (left : ℤ) < wrap rise

theorem wrap_natCast {x : ℕ} (hx : x ≤ intMax) : wrap x = x := by
  unfold intMax at hx
  exact wrap_eq (by omega) (by omega)

/-- What is left to be doled out is an `int`. -/
theorem wrap_left {total eventsLeft : ℕ} (htotal : total ≤ eventsLeft)
    (hle : eventsLeft ≤ intMax) :
    wrap ((eventsLeft : ℤ) - total) = ((eventsLeft - total : ℕ) : ℤ) := by
  rw [← Nat.cast_sub htotal]
  exact wrap_natCast (by omega)

/-- Only a product that is no `int` hides that the events are fewer. -/
theorem intMax_lt_of_wrap_le {left rise : ℕ} (hfew : left < rise)
    (hless : ¬ (left : ℤ) < wrap rise) : intMax < rise := by
  by_contra hsmall
  rw [wrap_natCast (not_lt.mp hsmall)] at hless
  exact hless (Nat.cast_lt.mpr hfew)

theorem comparesRight_iff {left rise : ℕ} (hle : left ≤ intMax) :
    ComparesRight left rise ↔ ((left : ℤ) < wrap rise ↔ left < rise) := by
  unfold ComparesRight
  constructor
  · rintro (hsmall | hless)
    · rw [wrap_natCast hsmall]
      exact Nat.cast_lt
    · refine iff_of_true hless ?_
      by_contra hmany
      rw [wrap_natCast (by omega)] at hless
      exact hmany (Nat.cast_lt.mp hless)
  · intro hiff
    rcases le_or_gt rise intMax with hsmall | hbig
    · exact .inl hsmall
    · exact .inr (hiff.mpr (by omega))

/-- **Between rounds**: `numEvents` has the shares, which are not negative yet, and `min` is the
length of one of the cues. -/
structure Doled (sorted : ℕ → ℕ × ℕ) (n min total : ℕ) (numEvents : ℕ → ℤ) (share : ℕ → ℕ) :
    Prop where
  level : Level n (fun i => (sorted i).1) share min total
  numEvents : ∀ i ∈ Icc 1 n, numEvents ((sorted i).2 - 1) = share i
  first : (sorted 1).1 + share 1 = min
  reached : ∃ i ∈ Icc 1 n, (sorted i).1 = min
  bound : ∀ i ∈ Icc 1 n, (sorted i).1 ≤ intMax

namespace Doled

variable {min total : ℕ} {numEvents : ℕ → ℤ} {share : ℕ → ℕ}

theorem min_le (h : Doled sorted n min total numEvents share) : min ≤ intMax := by
  obtain ⟨i, hi, rfl⟩ := h.reached
  exact h.bound i hi

theorem add_le (h : Doled sorted n min total numEvents share) {i : ℕ} (hi : i ∈ Icc 1 n) :
    (sorted i).1 + share i ≤ intMax := by
  have hmin := h.min_le
  have hbound := h.bound i hi
  rcases Nat.eq_zero_or_pos (share i) with h0 | hpos
  · omega
  · have := h.level.filled i hi hpos
    omega

/-- The lowest cues. -/
theorem lowest (h : Doled sorted n min total numEvents share) (hsorted : Sorted Prod.fst n sorted)
    (hn : 0 < n) :
    Lowest n (fun i => (sorted i).1) share min (sorted (sameCues sorted numEvents n min + 1)).1
      (sameCues sorted numEvents n min) := by
  refine lowest_takeWhile hsorted hn h.level (fun i hi => ?_) h.first
  have hadd := h.add_le hi
  unfold intMax at hadd
  rw [decide_eq_true_eq, h.numEvents i hi, wrap_eq (by omega) (by omega)]
  omega

variable {k next : ℕ}

theorem next_le (h : Doled sorted n min total numEvents share)
    (hnext : k < n → (sorted (k + 1)).1 = next) (hkn : k < n) : next ≤ intMax := by
  rw [← hnext hkn]
  exact h.bound _ (mem_Icc.mpr ⟨by omega, by omega⟩)

/-- What each of the lowest gets in a round. -/
theorem wrap_rise (h : Doled sorted n min total numEvents share)
    (hk : Lowest n (fun i => (sorted i).1) share min next k)
    (hnext : k < n → (sorted (k + 1)).1 = next) (hkn : k < n) :
    wrap ((next : ℤ) - min) = ((next - min : ℕ) : ℤ) := by
  have hle := h.next_le hnext hkn
  rw [← Nat.cast_sub (hk.above hkn).le]
  exact wrap_natCast (by omega)

/-- **A round.** -/
theorem raise (h : Doled sorted n min total numEvents share) (hplaces : PlacesDiffer sorted n)
    (hk : Lowest n (fun i => (sorted i).1) share min next k)
    (hnext : k < n → (sorted (k + 1)).1 = next) (hkn : k < n) :
    Doled sorted n next (total + (next - min) * k)
      (giveFirst sorted (fun _ => wrap (next - min)) k numEvents)
      fun i => share i + if i ≤ k then next - min else 0 := by
  have habove := hk.above hkn
  have hle := h.next_le hnext hkn
  have hone : 1 ≤ k := hk.pos
  have h1 := hk.low 1 (mem_Icc.mpr ⟨le_refl 1, hone⟩)
  unfold intMax at hle
  refine ⟨h.level.raise hk hkn, fun i hi => ?_, ?_,
    ⟨k + 1, mem_Icc.mpr ⟨by omega, by omega⟩, hnext hkn⟩, h.bound⟩
  · rw [giveFirst_apply hplaces _ hk.le _ hi, h.numEvents i hi]
    by_cases hik : i ≤ k
    · have hi1 := hk.low i (mem_Icc.mpr ⟨(mem_Icc.mp hi).1, hik⟩)
      rw [if_pos hik, if_pos hik, wrap_add_wrap, wrap_eq (by omega) (by omega)]
      omega
    · rw [if_neg hik, if_neg hik, Nat.add_zero]
  · rw [if_pos hone]
    omega

/-- Where every share is an `int`, the shares add up to more than there is. -/
theorem not_waterFilling_of_fit (h : Doled sorted n min total numEvents share)
    (hk : Lowest n (fun i => (sorted i).1) share min next k) {eventsLeft : ℕ}
    (htotal : eventsLeft < total) {e given : ℕ → ℕ}
    (hfit : ∀ i ∈ Icc 1 k, share i + e i ≤ 2147483647)
    (hgiven : ∀ i ∈ Icc 1 n,
      given i = if i ≤ k then (wrap ((share i : ℤ) + (e i : ℤ))).toNat else 0) :
    ¬ WaterFilling n (fun i => (sorted i).1) given eventsLeft := by
  intro hfill
  have hall : ∀ i ∈ Icc 1 n, given i = share i + if i ≤ k then e i else 0 := by
    intro i hi
    rw [hgiven i hi]
    by_cases hik : i ≤ k
    · have hi' := hfit i (mem_Icc.mpr ⟨(mem_Icc.mp hi).1, hik⟩)
      rw [if_pos hik, if_pos hik, wrap_eq (by omega) (by omega)]
      omega
    · have := (hk.high i hi (by omega)).2
      rw [if_neg hik, if_neg hik, this]
  have hsum := hfill.total
  rw [sum_congr rfl hall, sum_add_first e hk.le, h.level.total] at hsum
  omega

/-- A cue whose share is too big for an `int` gets nothing, and another one gets its events. -/
theorem not_waterFilling_of_tooBig (h : Doled sorted n min total numEvents share)
    (hk : Lowest n (fun i => (sorted i).1) share min next k)
    {eventsLeft q : ℕ} (hpos : 0 < eventsLeft) (hq : q ≤ intMax)
    {e : ℕ → ℕ} (he : ∀ i, q ≤ e i ∧ e i ≤ q + 1) {given : ℕ → ℕ}
    (hgiven : ∀ i ∈ Icc 1 n,
      given i = if i ≤ k then (wrap ((share i : ℤ) + (e i : ℤ))).toNat else 0)
    {i : ℕ} (hi : i ∈ Icc 1 k) (hbig : 2147483647 < share i + e i) :
    ¬ WaterFilling n (fun i => (sorted i).1) given eventsLeft := by
  intro hfill
  have hshare : ∀ i ∈ Icc 1 n, share i ≤ intMax := fun i hi => by
    have := h.add_le hi
    omega
  unfold intMax at hq hshare
  rw [mem_Icc] at hi
  have hin : i ∈ Icc 1 n := mem_Icc.mpr ⟨hi.1, hi.2.trans hk.le⟩
  have hlevel : (sorted i).1 + share i = min := hk.low i (mem_Icc.mpr hi)
  have hwrapped : ∀ j ∈ Icc 1 n, j ≤ k → 2147483648 ≤ share j + e j → given j = 0 := by
    intro j hj hjk hbig
    have := hshare j hj
    have := he j
    rw [hgiven j hj, if_pos hjk]
    exact Int.toNat_of_nonpos (wrap_nonpos (by omega) (by omega))
  obtain ⟨j, hj, hjpos⟩ : ∃ j ∈ Icc 1 n, 0 < given j := by
    by_contra hnone
    push Not at hnone
    have := hfill.total
    rw [sum_eq_zero fun j hj => Nat.le_zero.mp (hnone j hj)] at this
    omega
  have hjk : j ≤ k := by
    by_contra hjk
    rw [hgiven j hj, if_neg hjk] at hjpos
    omega
  have hjlevel : (sorted j).1 + share j = min := hk.low j (mem_Icc.mpr ⟨(mem_Icc.mp hj).1, hjk⟩)
  have hjfit : share j + e j ≤ 2147483647 := by
    by_contra hbig'
    have := hwrapped j hj hjk (by omega)
    omega
  have hjgiven : given j = share j + e j := by
    rw [hgiven j hj, if_pos hjk, wrap_eq (by omega) (by omega)]
    omega
  have hbalanced := hfill.balanced j hj i hin hjpos
  have hzero := hwrapped i hin hi.2 hbig
  rw [hjgiven, hzero] at hbalanced
  have := he i
  have := he j
  omega

/-- **Too much has been doled out**, and what is left is not negative for the `int`s.  Either the
shares add up to more than there is, or one is too big for an `int` and its cue gets nothing. -/
theorem not_waterFilling_of_nonneg (h : Doled sorted n min total numEvents share)
    (hk : Lowest n (fun i => (sorted i).1) share min next k)
    {eventsLeft q : ℕ} (htotal : eventsLeft < total) (hpos : 0 < eventsLeft) (hq : q ≤ intMax)
    {e : ℕ → ℕ} (he : ∀ i, q ≤ e i ∧ e i ≤ q + 1) {given : ℕ → ℕ}
    (hgiven : ∀ i ∈ Icc 1 n,
      given i = if i ≤ k then (wrap ((share i : ℤ) + (e i : ℤ))).toNat else 0) :
    ¬ WaterFilling n (fun i => (sorted i).1) given eventsLeft := by
  by_cases hfit : ∀ i ∈ Icc 1 k, share i + e i ≤ 2147483647
  case pos => exact h.not_waterFilling_of_fit hk htotal hfit hgiven
  case neg =>
    push Not at hfit
    obtain ⟨i, hi, hbig⟩ := hfit
    exact h.not_waterFilling_of_tooBig hk hpos hq he hgiven hi hbig

/-- **Too much has been doled out**, and what is left is negative for the `int`s.  The cue that was
raised last has no share to take it from. -/
theorem not_waterFilling_of_neg (h : Doled sorted n min total numEvents share)
    (hk : Lowest n (fun i => (sorted i).1) share min next k) {eventsLeft m : ℕ}
    (hle : eventsLeft < total) (hpos : 0 < m) (hm : m ≤ 2147483648) {t : ℤ}
    (hcong : (m : ℤ) = total - eventsLeft + 4294967296 * t) {given : ℕ → ℕ}
    (hgiven : ∀ i ∈ Icc 1 n, given i = if i ≤ k then share i - m / k else 0) :
    ¬ WaterFilling n (fun i => (sorted i).1) given eventsLeft := by
  intro hfill
  obtain ⟨i, hi, himin⟩ := h.reached
  have hik : i ≤ k := by
    by_contra hki
    have hhigh : next ≤ (sorted i).1 := (hk.high i hi (by omega)).1
    have := hk.above (by have := (mem_Icc.mp hi).2; omega)
    omega
  have hi0 : share i = 0 := by
    have : (sorted i).1 + share i = min := hk.low i (mem_Icc.mpr ⟨(mem_Icc.mp hi).1, hik⟩)
    omega
  have hshares : ∀ l ∈ Icc 1 n,
      share l ≤ given l + if l ∈ (Icc 1 k).erase i then m / k else 0 := by
    intro l hl
    have hl1 := (mem_Icc.mp hl).1
    rw [hgiven l hl]
    by_cases hlk : l ≤ k
    · rw [if_pos hlk]
      rcases eq_or_ne l i with rfl | hne
      · omega
      · rw [if_pos (mem_erase.mpr ⟨hne, mem_Icc.mpr ⟨hl1, hlk⟩⟩)]
        omega
    · rw [(hk.high l hl (by omega)).2]
      exact Nat.zero_le _
  have hfilter : (Icc 1 n).filter (· ∈ (Icc 1 k).erase i) = (Icc 1 k).erase i := by
    ext l
    have := hk.le
    simp only [mem_filter, mem_erase, mem_Icc]
    omega
  have hsum := sum_le_sum hshares
  rw [h.level.total, sum_add_distrib, hfill.total, ← sum_filter, hfilter, sum_const,
    card_erase_of_mem (mem_Icc.mpr ⟨(mem_Icc.mp hi).1, hik⟩), Nat.card_Icc, Nat.add_sub_cancel,
    smul_eq_mul, Nat.sub_mul, Nat.one_mul] at hsum
  have hkm : k * (m / k) ≤ m := Nat.mul_div_le m k
  rcases Nat.eq_zero_or_pos (m / k) with h0 | hq
  · rw [h0, Nat.mul_zero] at hsum
    omega
  · have := hk.pos
    have : m / k ≤ k * (m / k) := Nat.le_mul_of_pos_left _ hk.pos
    omega

/-- **The last round, when too much has been doled out**: what is handed out is not water-filling. -/
theorem not_waterFilling_spread (h : Doled sorted n min total numEvents share)
    (hplaces : PlacesDiffer sorted n) (hk : Lowest n (fun i => (sorted i).1) share min next k)
    (htotal : intMax < total) {eventsLeft : ℕ} (hpos : 0 < eventsLeft) (hle : eventsLeft ≤ intMax)
    {left : ℤ} (hleft : left = wrap (eventsLeft - total)) :
    ¬ WaterFilling n (fun i => (sorted i).1) (fun i => (giveFirst sorted
      (fun i => left.tdiv k + if (i : ℤ) ≤ left.tmod k then 1 else 0) k numEvents
        ((sorted i).2 - 1)).toNat) eventsLeft := by
  obtain ⟨t, ht, hlow, hhigh⟩ := exists_wrap ((eventsLeft : ℤ) - total)
  rw [← hleft] at ht hlow hhigh
  have hgive : ∀ i ∈ Icc 1 n, (giveFirst sorted
      (fun i => left.tdiv k + if (i : ℤ) ≤ left.tmod k then 1 else 0) k numEvents
        ((sorted i).2 - 1)).toNat = if i ≤ k then (wrap ((share i : ℤ) +
          (left.tdiv k + if (i : ℤ) ≤ left.tmod k then 1 else 0))).toNat else 0 := by
    intro i hi
    rw [giveFirst_apply hplaces _ hk.le _ hi, h.numEvents i hi]
    by_cases hik : i ≤ k
    · rw [if_pos hik, if_pos hik]
    · rw [if_neg hik, if_neg hik, (hk.high i hi (by omega)).2]
      rfl
  unfold intMax at htotal hle
  rcases le_or_gt 0 left with hnonneg | hneg
  · obtain ⟨m, rfl⟩ := Int.eq_ofNat_of_zero_le hnonneg
    have hdiv : m / k ≤ m := Nat.div_le_self m k
    refine h.not_waterFilling_of_nonneg hk (q := m / k)
      (e := fun i => m / k + if i ≤ m % k then 1 else 0) (by omega) hpos (by unfold intMax; omega)
      (fun i => ?_) fun i hi => ?_
    · split <;> omega
    · rw [hgive i hi, tdiv_share]
  · obtain ⟨m, hm⟩ := Int.eq_ofNat_of_zero_le (Int.neg_nonneg_of_nonpos hneg.le)
    obtain rfl : left = -(m : ℤ) := by omega
    refine h.not_waterFilling_of_neg hk (m := m) (t := -t) (by omega) (by omega) (by omega)
      (by omega)
      fun i hi => ?_
    have hadd := h.add_le hi
    have hdiv : m / k ≤ m := Nat.div_le_self m k
    rw [hgive i hi, tdiv_share_neg m k (mem_Icc.mp hi).1]
    unfold intMax at hadd
    generalize m / k = q at hdiv ⊢
    split
    · rw [wrap_eq (by omega) (by omega)]
      omega
    · rfl

/-- **The last round, in time.** -/
theorem waterFilling_spread (h : Doled sorted n min total numEvents share)
    (hplaces : PlacesDiffer sorted n) (hk : Lowest n (fun i => (sorted i).1) share min next k)
    {m : ℕ} (hm : k = n ∨ m < (next - min) * k) (hle : total + m ≤ intMax) :
    WaterFilling n (fun i => (sorted i).1) (fun i => (giveFirst sorted
      (fun i => (m : ℤ).tdiv k + if (i : ℤ) ≤ (m : ℤ).tmod k then 1 else 0) k numEvents
        ((sorted i).2 - 1)).toNat) (total + m) := by
  refine (h.level.spread hk hm).congr (fun _ _ => rfl) fun i hi => ?_
  have hshare : share i ≤ total := by
    rw [← h.level.total]
    exact single_le_sum (fun _ _ => Nat.zero_le _) hi
  have hone : (m / k + if i ≤ m % k then 1 else 0) ≤ m := by
    rcases Nat.eq_zero_or_pos (m % k) with h0 | hmod
    · rw [h0, if_neg (by have := (mem_Icc.mp hi).1; omega)]
      exact Nat.div_le_self m k
    · have hdiv : m / k ≤ k * (m / k) := Nat.le_mul_of_pos_left _ hk.pos
      have := Nat.div_add_mod m k
      split <;> omega
  unfold intMax at hle
  rw [giveFirst_apply hplaces _ hk.le _ hi, h.numEvents i hi]
  by_cases hik : i ≤ k
  · rw [if_pos hik, if_pos hik, tdiv_share]
    generalize (m / k + if i ≤ m % k then 1 else 0) = x at hone ⊢
    rw [wrap_eq (by omega) (by omega)]
    omega
  · rw [if_neg hik, if_neg hik]
    rfl

/-- **Once too much has been doled out**, the loop comes to an end, and what is handed out is not
water-filling. -/
theorem fillCues_of_overflow (h : Doled sorted n min total numEvents share)
    (hsorted : Sorted Prod.fst n sorted) (hplaces : PlacesDiffer sorted n) (hn : 0 < n)
    (htotal : intMax < total) {eventsLeft : ℕ} (hpos : 0 < eventsLeft) (hle : eventsLeft ≤ intMax)
    (fuel : ℕ) (hfuel : n < fuel + {l ∈ Icc 1 n | (sorted l).1 ≤ min}.card) :
    ∃ f, fillCues sorted n eventsLeft fuel min (wrap total) numEvents = some f ∧
      ¬ WaterFilling n (fun i => (sorted i).1) (fun i => (f ((sorted i).2 - 1)).toNat)
        eventsLeft := by
  induction fuel generalizing min total numEvents share with
  | zero =>
      have hk := h.lowest hsorted hn
      have := hk.card_le
      have := hk.le
      omega
  | succ fuel ih =>
      have hk := h.lowest hsorted hn
      have hcard := hk.card_le
      rw [fillCues]
      generalize sameCues sorted numEvents n min = k at hk hcard ⊢
      split
      case isFalse =>
        refine ⟨numEvents, rfl, fun hfill => ?_⟩
        have hsum := hfill.total
        rw [sum_congr rfl fun i hi => by rw [h.numEvents i hi, Int.toNat_natCast],
          h.level.total] at hsum
        omega
      case isTrue =>
        dsimp only
        split
        case isTrue =>
          refine ⟨_, rfl, h.not_waterFilling_spread hplaces hk htotal hpos hle ?_⟩
          rw [wrap_sub_wrap]
        case isFalse hround =>
          obtain ⟨hkn, -⟩ := not_or.mp hround
          have hkn : k < n := lt_of_le_of_ne hk.le hkn
          have hlt := hk.card_lt rfl hkn
          have hraise := h.raise hplaces hk (fun _ => rfl) hkn
          have hdoled : wrap (wrap total + wrap (wrap ((sorted (k + 1)).1 - min) * k)) =
              wrap ((total + ((sorted (k + 1)).1 - min) * k : ℕ) : ℤ) := by
            rw [wrap_add_wrap, wrap_wrap_add, h.wrap_rise hk (fun _ => rfl) hkn, Nat.cast_add,
              Nat.cast_mul]
          rw [hdoled]
          exact ih hraise (by omega) (by omega)

/-- **A turn of the loop** with events left. -/
theorem fillCues_succ (h : Doled sorted n min total numEvents share)
    (hk : Lowest n (fun i => (sorted i).1) share min next k)
    (hsame : sameCues sorted numEvents n min = k) (hnext : (sorted (k + 1)).1 = next)
    {eventsLeft : ℕ} (hmore : total < eventsLeft) (hle : eventsLeft ≤ intMax) (fuel : ℕ) :
    fillCues sorted n eventsLeft (fuel + 1) min total numEvents =
      if k = n ∨ ((eventsLeft - total : ℕ) : ℤ) < wrap ((next - min) * k : ℕ) then
        some (giveFirst sorted (fun i => ((eventsLeft - total : ℕ) : ℤ).tdiv k +
          if (i : ℤ) ≤ ((eventsLeft - total : ℕ) : ℤ).tmod k then 1 else 0) k numEvents)
      else
        fillCues sorted n eventsLeft fuel next (wrap (total + (next - min) * k : ℕ))
          (giveFirst sorted (fun _ => wrap (next - min)) k numEvents) := by
  rw [fillCues, if_pos (Nat.cast_lt.mpr hmore), hsame]
  dsimp only
  rw [hnext, wrap_left hmore.le hle]
  by_cases hall : k = n
  case pos => rw [if_pos (.inl hall), if_pos (.inl hall)]
  case neg =>
    have hdeal := h.wrap_rise hk (fun _ => hnext) (lt_of_le_of_ne hk.le hall)
    rw [hdeal, ← Nat.cast_mul, wrap_add_wrap, ← Nat.cast_add]

/-- **The numbers found** are water-filling if every comparison is right, and only then. -/
theorem fillCues_spec (h : Doled sorted n min total numEvents share)
    (hsorted : Sorted Prod.fst n sorted) (hplaces : PlacesDiffer sorted n) (hn : 0 < n)
    {eventsLeft : ℕ} (htotal : total ≤ eventsLeft) (hle : eventsLeft ≤ intMax)
    (fuel : ℕ) (hfuel : n < fuel + {l ∈ Icc 1 n | (sorted l).1 ≤ min}.card) :
    ∃ f, fillCues sorted n eventsLeft fuel min total numEvents = some f ∧
      (WaterFilling n (fun i => (sorted i).1) (fun i => (f ((sorted i).2 - 1)).toNat) eventsLeft ↔
        RisesFrom ComparesRight n (fun i => (sorted i).1) eventsLeft min) := by
  induction fuel generalizing min total numEvents share with
  | zero =>
      have hk := h.lowest hsorted hn
      have := hk.card_le
      have := hk.le
      omega
  | succ fuel ih =>
      have hk := h.lowest hsorted hn
      have hcard := hk.card_le
      have hrises : RisesFrom ComparesRight n (fun i => (sorted i).1) eventsLeft min ↔ _ :=
        h.level.risesFrom_iff hk h.reached fun _ => rfl
      rw [hrises]
      rcases htotal.eq_or_lt with rfl | hmore
      case inl =>
        rw [fillCues, if_neg (lt_irrefl _)]
        refine ⟨numEvents, rfl, iff_of_true (h.level.done.congr (fun _ _ => rfl) fun i hi => ?_)
          fun hlt => absurd hlt (lt_irrefl _)⟩
        rw [h.numEvents i hi, Int.toNat_natCast]
      case inr =>
        rw [h.fillCues_succ hk rfl rfl hmore hle]
        generalize sameCues sorted numEvents n min = k at hk hcard ⊢
        -- the last round, where it is one
        have hspread : k = n ∨ eventsLeft - total < ((sorted (k + 1)).1 - min) * k → _ :=
          fun hlast => h.waterFilling_spread hplaces hk hlast (by omega)
        rw [Nat.add_sub_cancel' htotal] at hspread
        by_cases hall : k = n
        case pos =>
          rw [if_pos (.inl hall)]
          exact ⟨_, rfl, iff_of_true (hspread (.inl hall)) fun _ hkn => absurd hall hkn.ne⟩
        case neg =>
          have hkn : k < n := lt_of_le_of_ne hk.le hall
          have hlt := hk.card_lt rfl hkn
          have hraise := h.raise hplaces hk (fun _ => rfl) hkn
          have hshort : eventsLeft < total + ((sorted (k + 1)).1 - min) * k →
              RisesFrom ComparesRight n (fun i => (sorted i).1) eventsLeft (sorted (k + 1)).1 :=
            fun hlt => h.level.risesFrom_of_lt hk hkn hlt
          simp only [hall, false_or, hmore, hkn, forall_const]
          generalize ((sorted (k + 1)).1 - min) * k = rise at hspread hraise hshort ⊢
          rw [comparesRight_iff (show eventsLeft - total ≤ intMax by omega)]
          by_cases hfew : eventsLeft - total < rise
          case pos =>
            by_cases hless : ((eventsLeft - total : ℕ) : ℤ) < wrap rise
            case pos =>
              rw [if_pos hless]
              exact ⟨_, rfl, iff_of_true (hspread (.inr hfew))
                ⟨iff_of_true hless hfew, hshort (by omega)⟩⟩
            case neg =>
              -- the lists are raised although the events do not reach
              rw [if_neg hless]
              have hbig := intMax_lt_of_wrap_le hfew hless
              obtain ⟨f, hf, hnot⟩ := hraise.fillCues_of_overflow hsorted hplaces hn (by omega)
                (by omega) hle fuel (by omega)
              exact ⟨f, hf, iff_of_false hnot fun hright => hless (hright.1.mpr hfew)⟩
          case neg =>
            have hreach : total + rise ≤ eventsLeft := by omega
            have hless : ¬ ((eventsLeft - total : ℕ) : ℤ) < wrap rise := by
              rw [wrap_natCast (by omega)]
              omega
            rw [if_neg hless, wrap_natCast (hreach.trans hle)]
            obtain ⟨f, hf, hiff⟩ := ih hraise hreach (by omega)
            exact ⟨f, hf, hiff.trans (and_iff_right (iff_of_false hless hfew)).symm⟩

end Doled

theorem sum_map_range (f : ℕ → ℕ) (n : ℕ) :
    ((List.range n).map f).sum = ∑ i ∈ Icc 1 n, f (i - 1) := by
  induction n with
  | zero => rfl
  | succ n ih =>
      rw [List.range_succ, List.map_append, List.sum_append, ih, sum_Icc_succ_top (by omega)]
      simp

/-- **The sorted cues** are the counts, each with its place. -/
theorem gapSort_counts (counts : List ℕ) :
    Sorted Prod.fst counts.length
        (gapSort Prod.fst counts.length fun i => (counts.getD (i - 1) 0, i)) ∧
      PlacesDiffer (gapSort Prod.fst counts.length fun i => (counts.getD (i - 1) 0, i))
        counts.length ∧
      ∃ σ : Equiv.Perm ℕ,
        (∀ i, 1 ≤ σ i ∧ σ i ≤ counts.length ↔ 1 ≤ i ∧ i ≤ counts.length) ∧
        ∀ i, gapSort Prod.fst counts.length (fun i => (counts.getD (i - 1) 0, i)) i =
          (counts.getD (σ i - 1) 0, σ i) := by
  obtain ⟨σ, hσ, heq⟩ := @gapSort_perm _ Prod.fst counts.length
    fun i => (counts.getD (i - 1) 0, i)
  have happly : ∀ i, gapSort Prod.fst counts.length (fun i => (counts.getD (i - 1) 0, i)) i =
      (counts.getD (σ i - 1) 0, σ i) := fun i => by
    rw [heq]
    rfl
  refine ⟨gapSort_sorted counts.length _, fun i hi j hj hij => ?_, σ, hσ, happly⟩
  rw [happly, happly] at hij
  rw [mem_Icc] at hi hj
  have := (hσ i).mpr hi
  have := (hσ j).mpr hj
  exact σ.injective (by dsimp only at hij; omega)

/-- **The shares** are water-filling if every comparison is right, and only then. -/
theorem cueShares_spec {counts : List ℕ} (hcounts : 0 < counts.length)
    (hbound : ∀ c ∈ counts, c ≤ intMax) {eventsLeft : ℕ} (hle : eventsLeft ≤ intMax) :
    ∃ f, cueShares counts eventsLeft = some f ∧
      (WaterFilling counts.length (fun i => counts.getD (i - 1) 0) (fun i => (f (i - 1)).toNat)
          eventsLeft ↔
        RisesFrom ComparesRight counts.length (fun i => counts.getD (i - 1) 0) eventsLeft 0) := by
  obtain ⟨hsorted, hplaces, σ, hσ, happly⟩ := gapSort_counts counts
  rw [← RisesFrom.reindex σ hσ fun i => congrArg Prod.fst (happly i)]
  unfold cueShares
  generalize gapSort Prod.fst counts.length (fun i => (counts.getD (i - 1) 0, i)) = sorted at *
  have h1 : 1 ∈ Icc 1 counts.length := mem_Icc.mpr ⟨le_refl 1, hcounts⟩
  have hlow : ∀ i ∈ Icc 1 counts.length, (sorted 1).1 ≤ (sorted i).1 := fun i hi =>
    hsorted 1 i (le_refl 1) (mem_Icc.mp hi).1 (mem_Icc.mp hi).2
  have hstart : Doled sorted counts.length (sorted 1).1 0 (fun _ => 0) fun _ => 0 := by
    refine ⟨level_start hlow, fun _ _ => rfl, Nat.add_zero _, ⟨1, h1, rfl⟩, fun i hi => ?_⟩
    have hin : σ i - 1 < counts.length := by
      have := (hσ i).mpr (mem_Icc.mp hi)
      omega
    rw [happly, List.getD_eq_getElem?_getD, List.getElem?_eq_getElem hin]
    exact hbound _ (List.getElem_mem hin)
  have hk := hstart.lowest hsorted hcounts
  have hcard := hk.card_le
  have hpos := hk.pos
  obtain ⟨f, hf, hiff⟩ := hstart.fillCues_spec hsorted hplaces hcounts (Nat.zero_le eventsLeft) hle
    counts.length (by omega)
  refine ⟨f, hf, ?_⟩
  rw [← waterFilling_reindex_iff σ hσ, ← RisesFrom.of_low hlow, ← hiff]
  simp only [happly]

end EqualCue

/-! ### What is dealt to the group -/

section HandOut

variable (hdr : ℕ → EventHeader)

/-- **The hand-out ends in an exception** just when the shares are more than there is. -/
theorem handOutCues_eq {order : List ℕ} {shares : List ℤ} (hlen : order.length = shares.length)
    (events : List ℕ) (stat : ℕ → JavaStation) :
    handOutCues hdr (order.zip shares) events stat =
      if (shares.map Int.toNat).sum ≤ events.length then
        some (handOut hdr (order.zip (shares.map Int.toNat)) events stat)
      else none := by
  induction order generalizing shares events stat with
  | nil =>
      obtain rfl := List.eq_nil_of_length_eq_zero hlen.symm
      exact (if_pos (Nat.zero_le _)).symm
  | cons s order ih =>
      cases shares with
      | nil => cases hlen
      | cons eventsToPut shares =>
          have hrest := fun events stat => ih (Nat.succ.inj hlen) events stat
          rw [List.zip_cons_cons, handOutCues, List.map_cons, List.zip_cons_cons, List.sum_cons,
            handOut]
          by_cases hnone : eventsToPut < 1
          case pos =>
            have h0 : eventsToPut.toNat = 0 := by omega
            rw [if_pos hnone, hrest, h0, Nat.zero_add, if_pos Nat.zero_lt_one]
          case neg =>
            rw [if_neg hnone, if_neg (show ¬ eventsToPut.toNat < 1 by omega)]
            by_cases hshort : (events.length : ℤ) < eventsToPut
            case pos =>
              rw [if_pos hshort, if_neg (by omega)]
            case neg =>
              rw [if_neg hshort, hrest, List.length_drop]
              refine if_congr ?_ rfl rfl
              omega

/-- Nothing changes in the other stations. -/
theorem handOutCues_of_notMem {zs : List (ℕ × ℤ)} {events : List ℕ} {stat stat' : ℕ → JavaStation}
    (h : handOutCues hdr zs events stat = some stat') {s : ℕ} (hs : s ∉ zs.map Prod.fst) :
    stat' s = stat s := by
  induction zs generalizing events stat with
  | nil => rw [Option.some.inj h]
  | cons z zs ih =>
      rw [List.map_cons, List.mem_cons, not_or] at hs
      unfold handOutCues at h
      split at h
      case isTrue => exact ih h hs.2
      case isFalse =>
        obtain ⟨-, hrest⟩ := Option.ite_none_left_eq_some.mp h
        exact (ih hrest hs.2).trans (Function.update_of_ne hs.1 ..)

/-- Every station gets as many events as it is to get. -/
theorem length_segment {order : List ℕ} {shares : List ℕ} (hnodup : order.Nodup)
    (hlen : order.length = shares.length) {events : List ℕ} (hsum : shares.sum ≤ events.length) :
    order.map (fun s => (segment (order.zip shares) events s).length) = shares := by
  induction order generalizing shares events with
  | nil => exact (List.eq_nil_of_length_eq_zero hlen.symm).symm
  | cons s order ih =>
      cases shares with
      | nil => cases hlen
      | cons n shares =>
          obtain ⟨hs, hnodup⟩ := List.nodup_cons.mp hnodup
          rw [List.sum_cons] at hsum
          have hleft : shares.sum ≤ (events.drop n).length := by
            rw [List.length_drop]
            omega
          have hrest := ih hnodup (Nat.succ.inj hlen) hleft
          rw [List.zip_cons_cons, List.map_cons]
          refine congrArg₂ List.cons ?_ ?_
          · rw [segment, if_pos rfl, List.length_take]
            omega
          · refine (List.map_congr_left fun r hr => ?_).trans hrest
            rw [segment, if_neg (ne_of_mem_of_not_mem hr hs)]

end HandOut

/-- **What the equal-cue algorithm relies on**: its arrays have room for the active members of the
group, sizes are `int`s, and every comparison comes out right. -/
structure EqualCueFits (stationsMax : ℕ) (stat : ℕ → JavaStation) (stations batch : List ℕ) :
    Prop where
  room : stations.length ≤ stationsMax
  events : batch.length ≤ intMax
  cues : ∀ s ∈ stations, (stat s).input.length ≤ intMax
  rises : RisesFrom ComparesRight stations.length
    (fun i => (stations.map fun s => (stat s).input.length).getD (i - 1) 0) batch.length 0

section Group

open Finset

variable {stat stat' : ℕ → JavaStation} {members batch : List ℕ}
  {stationsMax : ℕ}

/-- An entry within the length of a list. -/
theorem getD_map {stations : List ℕ} (g : ℕ → ℕ) {i : ℕ} (hi : i ∈ Icc 1 stations.length) :
    (stations.map g).getD (i - 1) 0 = g (stations.getD (i - 1) 0) := by
  have hin : i - 1 < stations.length := by
    have := mem_Icc.mp hi
    omega
  simp [List.getD_eq_getElem?_getD, hin]

theorem getD_mem {stations : List ℕ} {i : ℕ} (hi : i ∈ Icc 1 stations.length) :
    stations.getD (i - 1) 0 ∈ stations := by
  have hin : i - 1 < stations.length := by
    have := mem_Icc.mp hi
    omega
  rw [List.getD_eq_getElem _ _ hin]
  exact List.getElem_mem hin

/-- **A group is dealt to** as the shares say, if they are not more than there is. -/
theorem dealEqualCue_eq (hdr : ℕ → EventHeader) (hne : actives stat members ≠ [])
    (hroom : (actives stat members).length ≤ stationsMax) (hbatch : batch.length ≤ intMax)
    (hcues : ∀ s ∈ actives stat members, (stat s).input.length ≤ intMax) : ∃ f : ℕ → ℕ,
      (WaterFilling (actives stat members).length
          (fun i => ((actives stat members).map fun s => (stat s).input.length).getD (i - 1) 0)
          (fun i => f (i - 1)) batch.length ↔
        EqualCueFits stationsMax stat (actives stat members) batch) ∧
      dealEqualCue hdr stationsMax members stat batch =
        if ((List.range (actives stat members).length).map f).sum ≤ batch.length then
          some (handOut hdr ((actives stat members).zip
            ((List.range (actives stat members).length).map f)) batch stat)
        else none := by
  obtain ⟨f, hf, hfill⟩ := @cueShares_spec ((actives stat members).map fun s => (stat s).input.length)
    (by rwa [List.length_map, List.length_pos_iff]) (by simpa using hcues) _ hbatch
  rw [List.length_map] at hfill
  refine ⟨fun i => (f i).toNat, hfill.trans ⟨fun h => ⟨hroom, hbatch, hcues, h⟩, fun h => h.rises⟩,
    ?_⟩
  unfold dealEqualCue
  dsimp only
  rw [if_neg (by omega), hf, Option.bind_some, handOutCues_eq hdr (by simp), List.map_map]
  rfl

/-- **An equal-cue group** shares out everything, if the algorithm has what it relies on. -/
theorem hands_dealEqualCue (hdr : ℕ → EventHeader) (hne : actives stat members ≠ [])
    (hnodup : members.Nodup) (hfits : EqualCueFits stationsMax stat (actives stat members) batch) :
    ∃ stat' given, dealEqualCue hdr stationsMax members stat batch = some stat' ∧
      Hands hdr members stat stat' batch [] given ∧ DealtEvenly stat members batch given := by
  obtain ⟨f, hfill, hdeal⟩ := dealEqualCue_eq hdr hne hfits.room hfits.events hfits.cues
  have hfill := hfill.mpr hfits
  set stations := actives stat members with hstations
  have hnodup' : stations.Nodup := hnodup.filter _
  set shares := (List.range stations.length).map f with hshares
  have hsum : shares.sum = batch.length := (sum_map_range f _).trans hfill.total
  set pieces := shares.splitLengths batch with hpieces
  have hlengths : pieces.map List.length = shares := List.map_splitLengths_length _ _ hsum.le
  have hflatten : pieces.flatten = batch := List.flatten_splitLengths _ _ hsum.ge
  have hlen : stations.length = pieces.length := by simp [hpieces, hshares]
  have hgiven := segment_flatten hnodup' hlen
  have hfst : (stations.zip (pieces.map List.length)).map Prod.fst = stations :=
    List.map_fst_zip (by rw [List.length_map, hlen])
  have hout := handOut_eq hdr (by rwa [hfst]) pieces.flatten stat
  refine ⟨_, segment (stations.zip (pieces.map List.length)) pieces.flatten, ?_,
    hands_pieces (.refl _) hnodup' hlen (.of_eq hflatten) (fun piece hp => ?_) (fun s => (hout s).1)
      (fun s => (hout s).2.1) (fun s _ => (hout s).2.2), ?_, ?_⟩
  · rw [hdeal, if_pos hsum.le, hlengths, hflatten]
  · rw [← hflatten]
    exact List.sublist_flatten_of_mem hp
  · rw [List.flatMap_def, hgiven, hflatten]
  · have hlength := length_segment hnodup' (by rw [hshares]; simp) hsum.le
    rw [hlengths, hflatten]
    refine hfill.congr (fun i hi => ?_) fun i hi => ?_
    · rw [← hstations]
      exact (getD_map (fun s => (stat s).input.length) hi).symm
    · rw [← getD_map (fun s => (segment (stations.zip shares) batch s).length) hi, hlength, hshares]
      have := mem_Icc.mp hi
      simp [List.getD_eq_getElem?_getD, List.getElem?_range (show i - 1 < stations.length by omega)]

/-- Stations that are not dealt to keep what they have. -/
theorem dealEqualCue_of_notMem {hdr : ℕ → EventHeader}
    (hdeal : dealEqualCue hdr stationsMax members stat batch = some stat') {s : ℕ}
    (hs : s ∉ actives stat members) : stat' s = stat s := by
  unfold dealEqualCue at hdeal
  obtain ⟨-, hdeal⟩ := Option.ite_none_left_eq_some.mp hdeal
  obtain ⟨f, -, hout⟩ := Option.bind_eq_some_iff.mp hdeal
  refine handOutCues_of_notMem hdr hout ?_
  rwa [List.map_fst_zip (by simp)]

/-- **Where the lists come out even**, the algorithm had what it relies on. -/
theorem fits_of_dealEqualCue (hdr : ℕ → EventHeader) (hne : actives stat members ≠ [])
    (hnodup : members.Nodup) (hbatch : batch.length ≤ intMax)
    (hcues : ∀ s ∈ actives stat members, (stat s).input.length ≤ intMax)
    (hdeal : dealEqualCue hdr stationsMax members stat batch = some stat')
    (heven : WaterFilling (actives stat members).length
      (fun i => (stat ((actives stat members).getD (i - 1) 0)).input.length)
      (fun i => (stat' ((actives stat members).getD (i - 1) 0)).input.length -
        (stat ((actives stat members).getD (i - 1) 0)).input.length) batch.length) :
    EqualCueFits stationsMax stat (actives stat members) batch := by
  have hroom : (actives stat members).length ≤ stationsMax := by
    by_contra hmax
    unfold dealEqualCue at hdeal
    dsimp only at hdeal
    rw [if_pos (by omega)] at hdeal
    cases hdeal
  obtain ⟨f, hfill, heq⟩ := dealEqualCue_eq hdr hne hroom hbatch hcues
  rw [← hfill]
  set stations := actives stat members with hstations
  have hnodup' : stations.Nodup := hnodup.filter _
  obtain ⟨hsum, hstat⟩ := Option.ite_none_right_eq_some.mp (heq.symm.trans hdeal)
  obtain rfl := Option.some.inj hstat
  have hlength := length_segment hnodup' (by simp) hsum
  have hfst : (stations.zip ((List.range stations.length).map f)).map Prod.fst = stations :=
    List.map_fst_zip (by simp)
  refine heven.congr (fun i hi => getD_map _ hi) fun i hi => ?_
  have hget := getD_map
    (fun s => (segment (stations.zip ((List.range stations.length).map f)) batch s).length) hi
  have := mem_Icc.mp hi
  rw [hlength] at hget
  rw [(handOut_eq hdr (by rwa [hfst]) batch stat _).1, length_llistWrite, Nat.add_sub_cancel_left,
    ← hget]
  simp [List.getD_eq_getElem?_getD, List.getElem?_range (show i - 1 < stations.length by omega)]

end Group

end EventTransfer
