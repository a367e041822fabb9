import Mathlib

/-!
# Rounding to a number of binary digits

A floating-point format with `p` binary digits in its significand has, between `2 ^ (s - 1)` and
`2 ^ s`, only the multiples of `2 ^ (s - p)`.  `nearest p n` is the one that a number `n` is
rounded to: the nearer neighbour, and of two equally near ones the even one.

* `nearest_le`, `le_nearest` — rounding does not go past a multiple of the grain.
* `nearest_ceilDiv_eq_iff` — dividing the rounded number and rounding up gives the right quotient,
  unless the number has been rounded down onto a multiple of the divisor.
-/

namespace Rounding

variable {p n m b : ℕ}

/-- The distance of neighbours where `n` is. -/
def grain (p n : ℕ) : ℕ := 2 ^ (n.size - p)

/-- **`n` rounded to `p` binary digits**, ties to even. -/
def nearest (p n : ℕ) : ℕ :=
  if 2 * (n % grain p n) < grain p n ∨
      2 * (n % grain p n) = grain p n ∧ n / grain p n % 2 = 0 then
    n / grain p n * grain p n
  else (n / grain p n + 1) * grain p n

theorem grain_pos : 0 < grain p n := Nat.two_pow_pos _

/-- The grain of the numbers of at most `p + k` digits. -/
theorem grain_dvd {k : ℕ} (h : n < 2 ^ (p + k)) : grain p n ∣ 2 ^ k := by
  have hsize : n.size ≤ p + k := Nat.size_le.mpr h
  exact pow_dvd_pow 2 (by omega)

/-- **Rounding up stops at a multiple of the grain.** -/
theorem nearest_le (hm : grain p n ∣ m) (hle : n ≤ m) : nearest p n ≤ m := by
  obtain ⟨c, rfl⟩ := hm
  have hpos : 0 < grain p n := grain_pos
  have hdiv := Nat.div_add_mod n (grain p n)
  unfold nearest
  split
  case isTrue => exact (Nat.div_mul_le_self _ _).trans hle
  case isFalse hup =>
    -- what is rounded up is not a multiple itself
    have hrest : n % grain p n ≠ 0 := fun hzero => hup (.inl (by omega))
    have hlt : n / grain p n < c := by
      by_contra hge
      have := Nat.mul_le_mul_left (grain p n) (not_lt.mp hge)
      omega
    calc (n / grain p n + 1) * grain p n
        ≤ c * grain p n := Nat.mul_le_mul_right _ hlt
      _ = grain p n * c := Nat.mul_comm _ _

/-- **Rounding down stops at a multiple of the grain.** -/
theorem le_nearest (hm : grain p n ∣ m) (hle : m ≤ n) : m ≤ nearest p n := by
  obtain ⟨c, rfl⟩ := hm
  have hc : c ≤ n / grain p n := (Nat.le_div_iff_mul_le grain_pos).mpr (by rwa [Nat.mul_comm])
  have hdown : grain p n * c ≤ n / grain p n * grain p n := by
    rw [Nat.mul_comm]
    exact Nat.mul_le_mul_right _ hc
  unfold nearest
  split
  · exact hdown
  · exact hdown.trans (Nat.mul_le_mul_right _ (Nat.le_succ _))

/-- What is not 0 is not rounded to 0. -/
theorem nearest_pos (hp : 0 < p) (hn : 0 < n) : 0 < nearest p n := by
  have hgrain : grain p n ≤ n := Nat.lt_size.mp (by
    have := Nat.size_pos.mpr hn
    omega)
  exact grain_pos.trans_le (le_nearest dvd_rfl hgrain)

/-- A multiple of the grain stays as it is. -/
theorem nearest_of_dvd (h : grain p n ∣ n) : nearest p n = n :=
  (nearest_le h le_rfl).antisymm (le_nearest h le_rfl)

/-- **Rounded down onto a boundary**: this happens to the numbers that are at most half a grain
above it. -/
theorem nearest_le_boundary_iff (hb : 2 * grain p n ∣ b) :
    nearest p n ≤ b * (n / b) ↔ 2 * (n % b) ≤ grain p n := by
  obtain ⟨c, hc⟩ := hb
  have hpos : 0 < grain p n := grain_pos
  have hsplit := Nat.div_add_mod n b
  have hgrain : grain p n ∣ b * (n / b) := ⟨2 * c * (n / b), by rw [hc]; ring⟩
  -- just above the boundary, it is the even neighbour below
  have hnear (hlt : n % b < grain p n) :
      n / grain p n = 2 * (c * (n / b)) ∧ n % grain p n = n % b := by
    have hn : n = n % b + grain p n * (2 * (c * (n / b))) := by
      calc n = b * (n / b) + n % b := hsplit.symm
        _ = 2 * grain p n * c * (n / b) + n % b := by rw [← hc]
        _ = n % b + grain p n * (2 * (c * (n / b))) := by ring
    constructor
    · calc n / grain p n = (n % b + grain p n * (2 * (c * (n / b)))) / grain p n := by rw [← hn]
        _ = n % b / grain p n + 2 * (c * (n / b)) := Nat.add_mul_div_left _ _ hpos
        _ = 2 * (c * (n / b)) := by rw [Nat.div_eq_of_lt hlt, Nat.zero_add]
    · calc n % grain p n = (n % b + grain p n * (2 * (c * (n / b)))) % grain p n := by rw [← hn]
        _ = n % b % grain p n := Nat.add_mul_mod_self_left _ _ _
        _ = n % b := Nat.mod_eq_of_lt hlt
  have hboundary : 2 * (c * (n / b)) * grain p n = b * (n / b) := by rw [hc]; ring
  constructor
  · intro hdown
    by_contra hfar
    by_cases hlt : n % b < grain p n
    · obtain ⟨hquot, hrest⟩ := hnear hlt
      have hup : nearest p n = (n / grain p n + 1) * grain p n := by
        rw [nearest, hrest, if_neg (by omega)]
      rw [hup, hquot, Nat.add_mul, hboundary] at hdown
      omega
    · have := le_nearest (hgrain.add dvd_rfl) (by omega : b * (n / b) + grain p n ≤ n)
      omega
  · intro hle
    obtain ⟨hquot, hrest⟩ := hnear (by omega)
    have heven : n / grain p n % 2 = 0 := by rw [hquot]; exact Nat.mul_mod_right _ _
    have hdown : nearest p n = n / grain p n * grain p n := by
      rw [nearest, hrest, if_pos (by omega)]
    rw [hdown, hquot, hboundary]

/-- **The quotient of the rounded number, rounded up**, is that of the number itself unless the
number has been rounded down onto a multiple of the divisor. -/
theorem nearest_ceilDiv_eq_iff (hpos : 0 < b) (hb : 2 * grain p n ∣ b) :
    nearest p n ⌈/⌉ b = n ⌈/⌉ b ↔ b ∣ n ∨ grain p n < 2 * (n % b) := by
  have hgrain : grain p n ∣ b := (Dvd.intro_left 2 rfl).trans hb
  by_cases hdvd : b ∣ n
  · rw [nearest_of_dvd (hgrain.trans hdvd)]
    exact iff_of_true rfl (.inl hdvd)
  have hrest : n % b ≠ 0 := fun hzero => hdvd (Nat.dvd_of_mod_eq_zero hzero)
  have hsplit := Nat.div_add_mod n b
  have hceil : n ⌈/⌉ b = n / b + 1 := by
    refine le_antisymm ((ceilDiv_le_iff_le_mul hpos).mpr ?_) ?_
    · have := Nat.mod_lt n hpos
      rw [Nat.mul_add, Nat.mul_one]
      omega
    · by_contra hlt
      have := (ceilDiv_le_iff_le_mul hpos).mp (Nat.lt_succ_iff.mp (not_le.mp hlt))
      omega
  have hle : nearest p n ⌈/⌉ b ≤ n ⌈/⌉ b := by
    refine (ceilDiv_le_iff_le_mul hpos).mpr (nearest_le (hgrain.mul_right _) ?_)
    exact (ceilDiv_le_iff_le_mul hpos).mp le_rfl
  rw [or_iff_right hdvd, ← not_le, ← nearest_le_boundary_iff hb, ← ceilDiv_le_iff_le_mul hpos]
  omega

end Rounding
