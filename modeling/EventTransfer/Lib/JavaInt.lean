import Mathlib.Data.BitVec
import Mathlib.Tactic.IntervalCases

/-!
# Java's integers and their bytes

`byte`, `short`, `int` and `long` are two's-complement bit vectors of 8, 16, 32 and 64 bits.  Every
operand narrower than an `int` is sign-extended to one before an operator sees it, so a negative
byte arrives with ones above its eight bits; masking with `0xff` takes them off again.  What is
proved here is what the shifts and masks of such code do to the bytes of a value: `byteAt v k` is
byte `k` of `v`, counted from the low end, and a value is its bytes (`eq_of_byteAt`).

Where code only counts, an `int` is better a number: the result of an operation is `wrap` of the
true one, which differs from it by a multiple of `2 ^ 32` (`exists_wrap`).
-/

namespace JavaInt

/-- A `byte` of the language. -/
abbrev Byte := BitVec 8

/-- Byte `k` of a value, byte 0 being the lowest. -/
def byteAt {w : ℕ} (v : BitVec w) (k : ℕ) : Byte := v.extractLsb' (8 * k) 8

/-- An operand of type `byte` as the `int` the operators see. -/
def promote (b : Byte) : BitVec 32 := b.signExtend 32

/-- `0xff & b`. -/
def unsigned (b : Byte) : BitVec 32 := 0xff#32 &&& promote b

/-- The cast `(byte) v`. -/
def toByte {w : ℕ} (v : BitVec w) : Byte := v.setWidth 8

theorem unsigned_eq (b : Byte) : unsigned b = b.setWidth 32 := by
  apply BitVec.eq_of_getLsbD_eq
  intro i hi
  rw [unsigned, promote, BitVec.getLsbD_and, BitVec.getLsbD_signExtend, BitVec.getLsbD_setWidth]
  by_cases h8 : i < 8
  · have hmask : (0xff#32).getLsbD i = true := by interval_cases i <;> rfl
    simp only [hmask, h8, hi, decide_true, Bool.true_and, if_true]
  · have hmask : (0xff#32).getLsbD i = false := by interval_cases i <;> rfl
    rw [hmask, Bool.false_and, BitVec.getLsbD_of_ge b i (by omega), Bool.and_false]

/-- Widening `0xff & b` to a `long` keeps it: it is not negative. -/
theorem signExtend_unsigned (b : Byte) : (unsigned b).signExtend 64 = b.setWidth 64 := by
  have hpos : (unsigned b).msb = false := by
    rw [unsigned_eq, BitVec.msb_eq_getLsbD_last, BitVec.getLsbD_setWidth,
      BitVec.getLsbD_of_ge b 31 (by omega), Bool.and_false]
  rw [BitVec.signExtend_eq_setWidth_of_msb_false hpos, unsigned_eq]
  exact BitVec.setWidth_setWidth fun h => absurd h.1 (by omega)

/-! ## Values as their bytes -/

/-- Two values of `n` bytes are equal when their bytes are. -/
theorem eq_of_byteAt {n : ℕ} {u v : BitVec (8 * n)} (h : ∀ k < n, byteAt u k = byteAt v k) :
    u = v := by
  apply BitVec.eq_of_getLsbD_eq
  intro i hi
  have hbyte := congrArg (fun b => BitVec.getLsbD b (i % 8)) (h (i / 8) (by omega))
  have hlt : i % 8 < 8 := Nat.mod_lt _ (by omega)
  simpa only [byteAt, BitVec.getLsbD_extractLsb', hlt, decide_true, Bool.true_and,
    Nat.div_add_mod] using hbyte

@[simp] theorem byteAt_or {w : ℕ} (u v : BitVec w) (k : ℕ) :
    byteAt (u ||| v) k = byteAt u k ||| byteAt v k := BitVec.extractLsb'_or

/-- A byte shifted up by whole bytes has itself at the place it was shifted to and zeros
elsewhere. -/
theorem byteAt_shiftLeft {w : ℕ} (b : Byte) {s : ℕ} (hs : s % 8 = 0) {k : ℕ} (hk : 8 * k + 8 ≤ w) :
    byteAt (b.setWidth w <<< s) k = if s = 8 * k then b else 0 := by
  apply BitVec.eq_of_getLsbD_eq
  intro i hi
  simp only [byteAt, BitVec.getLsbD_extractLsb', BitVec.getLsbD_shiftLeft,
    BitVec.getLsbD_setWidth, hi, decide_true, Bool.true_and]
  by_cases hsk : s = 8 * k
  · subst hsk
    simp only [if_true, show ¬8 * k + i < 8 * k by omega, show 8 * k + i < w by omega,
      show 8 * k + i - 8 * k = i by omega, show i < w by omega, decide_true, decide_false,
      Bool.not_false, Bool.true_and]
  · rw [if_neg hsk]
    show _ = (0#8).getLsbD i
    rw [BitVec.getLsbD_zero]
    by_cases hlt : 8 * k + i < s
    · simp [hlt]
    · rw [BitVec.getLsbD_of_ge b _ (by omega), Bool.and_false, Bool.and_false]

/-- A widened byte is itself at the low end. -/
theorem byteAt_setWidth_byte {w : ℕ} (b : Byte) {k : ℕ} (hk : 8 * k + 8 ≤ w) :
    byteAt (b.setWidth w) k = if k = 0 then b else 0 := by
  have h := byteAt_shiftLeft b (Nat.zero_mod 8) hk
  rw [BitVec.shiftLeft_zero] at h
  simpa [eq_comm] using h

/-- A cast to `byte` keeps the lowest byte. -/
theorem toByte_eq {w : ℕ} (v : BitVec w) : toByte v = byteAt v 0 := by
  apply BitVec.eq_of_getLsbD_eq
  intro i hi
  simp [toByte, byteAt, hi]

/-- The byte a right shift by whole bytes brings to the low end, whichever sign bits follow it. -/
theorem byteAt_sshiftRight {w : ℕ} (v : BitVec w) {s : ℕ} (hs : s % 8 = 0) (hw : s + 8 ≤ w) :
    byteAt (v.sshiftRight s) 0 = byteAt v (s / 8) := by
  apply BitVec.eq_of_getLsbD_eq
  intro i hi
  simp only [byteAt, BitVec.getLsbD_sshiftRight, BitVec.getLsbD_extractLsb', hi, decide_true,
    Bool.true_and, Nat.mul_zero, Nat.zero_add, show ¬w ≤ i by omega, decide_false, Bool.not_false,
    show s + i < w by omega, if_true, show 8 * (s / 8) + i = s + i by omega]

/-- The same for the unsigned shift of a `short` promoted to an `int`. -/
theorem byteAt_ushiftRight_signExtend (v : BitVec 16) :
    byteAt (v.signExtend 32 >>> 8) 0 = byteAt v 1 := by
  apply BitVec.eq_of_getLsbD_eq
  intro i hi
  simp only [byteAt, BitVec.getLsbD_ushiftRight, BitVec.getLsbD_extractLsb',
    BitVec.getLsbD_signExtend, hi, decide_true, Bool.true_and, Nat.mul_zero, Nat.zero_add,
    show 8 + i < 32 by omega, show 8 + i < 16 by omega, if_true, Nat.mul_one]

/-- Narrowing keeps the bytes there is room for. -/
theorem byteAt_setWidth {w : ℕ} (v : BitVec w) {u k : ℕ} (hk : 8 * k + 8 ≤ u) :
    byteAt (v.setWidth u) k = byteAt v k := by
  apply BitVec.eq_of_getLsbD_eq
  intro i hi
  simp only [byteAt, BitVec.getLsbD_extractLsb', BitVec.getLsbD_setWidth, hi, decide_true,
    Bool.true_and, show 8 * k + i < u by omega]

/-! ## Arithmetic -/

/-- The `int` that the result of an operation becomes. -/
def wrap (x : ℤ) : ℤ := x.bmod (2 ^ 32)

/-- What is within the range of an `int` stays. -/
theorem wrap_eq {x : ℤ} (hlow : -2147483648 ≤ x) (hhigh : x ≤ 2147483647) : wrap x = x :=
  Int.bmod_eq_of_le (by omega) (by omega)

/-- **Anything else** becomes the number in the range that differs by a multiple of `2 ^ 32`. -/
theorem exists_wrap (x : ℤ) :
    ∃ t : ℤ, wrap x = x + 4294967296 * t ∧ -2147483648 ≤ wrap x ∧ wrap x ≤ 2147483647 := by
  refine ⟨-x.bdiv (2 ^ 32), ?_, ?_, ?_⟩
  · rw [wrap, Int.bmod_eq_self_sub_mul_bdiv]
    omega
  · have := @Int.le_bmod x (2 ^ 32) (by omega)
    rw [wrap]
    omega
  · have := @Int.bmod_lt x (2 ^ 32) (by omega)
    rw [wrap]
    omega

/-- A sum of two numbers in the range that leaves it is negative. -/
theorem wrap_nonpos {x : ℤ} (hlow : 2147483648 ≤ x) (hhigh : x ≤ 4294967295) : wrap x ≤ 0 := by
  obtain ⟨t, ht, -, h⟩ := exists_wrap x
  omega

/-- Operands may be wrapped before they are added, or not. -/
@[simp] theorem wrap_add_wrap (x y : ℤ) : wrap (x + wrap y) = wrap (x + y) := Int.add_bmod_bmod

@[simp] theorem wrap_wrap_add (x y : ℤ) : wrap (wrap x + y) = wrap (x + y) := Int.bmod_add_bmod

@[simp] theorem wrap_sub_wrap (x y : ℤ) : wrap (x - wrap y) = wrap (x - y) := Int.sub_bmod_bmod

end JavaInt
