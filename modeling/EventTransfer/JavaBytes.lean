import EventTransfer.Lib.JavaInt

/-!
# Numbers in the Java client's byte arrays

The conversions of `EtUtils.java` between a `short`, an `int` or a `long` and the bytes of an
array from an offset on, in either byte order.  Each of the six is written out as the source has
it, with Java's promotions and shifts; an array has its length in its type, and an offset comes
with the proof that the number fits.

`Width` puts the three pairs under one name each, `toBytes` and `fromBytes`.  One lemma says of
every width and order which byte of the value stands at which place of the array (`place`), and
the round trips follow from it.  The exception is `bytesToShort` for little-endian bytes: the
mask there applies to the shifted byte, `0xff & (data[1+off] << 8)`, which is zero.
-/

namespace EventTransfer

open JavaInt

/-- `java.nio.ByteOrder`; `none` stands for `null`. -/
inductive ByteOrder
  | bigEndian
  | littleEndian
  deriving DecidableEq

section Conversions

variable {n : ℕ}

/-- Whether bytes are placed from the high end: the source's
`byteOrder == null || byteOrder == ByteOrder.BIG_ENDIAN`. -/
def isBig (byteOrder : Option ByteOrder) : Prop :=
  byteOrder = none ∨ byteOrder = some .bigEndian

instance (byteOrder : Option ByteOrder) : Decidable (isBig byteOrder) :=
  inferInstanceAs (Decidable (_ ∨ _))

def shortToBytes (data : BitVec 16) (byteOrder : Option ByteOrder) (dest : Vector Byte n)
    (off : ℕ) (fits : off + 2 ≤ n) : Vector Byte n :=
  if isBig byteOrder then
    (dest.set off (toByte (data.signExtend 32 >>> 8))).set (off + 1) (toByte data)
  else
    (dest.set off (toByte data)).set (off + 1) (toByte (data.signExtend 32 >>> 8))

def intToBytes (data : BitVec 32) (byteOrder : Option ByteOrder) (dest : Vector Byte n)
    (off : ℕ) (fits : off + 4 ≤ n) : Vector Byte n :=
  if isBig byteOrder then
    (((dest.set off (toByte (data.sshiftRight 24))).set (off + 1)
      (toByte (data.sshiftRight 16))).set (off + 2)
      (toByte (data.sshiftRight 8))).set (off + 3) (toByte data)
  else
    (((dest.set off (toByte data)).set (off + 1)
      (toByte (data.sshiftRight 8))).set (off + 2)
      (toByte (data.sshiftRight 16))).set (off + 3) (toByte (data.sshiftRight 24))

def longToBytes (data : BitVec 64) (byteOrder : Option ByteOrder) (dest : Vector Byte n)
    (off : ℕ) (fits : off + 8 ≤ n) : Vector Byte n :=
  if isBig byteOrder then
    (((((((dest.set off (toByte (data.sshiftRight 56))).set (off + 1)
      (toByte (data.sshiftRight 48))).set (off + 2)
      (toByte (data.sshiftRight 40))).set (off + 3)
      (toByte (data.sshiftRight 32))).set (off + 4)
      (toByte (data.sshiftRight 24))).set (off + 5)
      (toByte (data.sshiftRight 16))).set (off + 6)
      (toByte (data.sshiftRight 8))).set (off + 7) (toByte data)
  else
    (((((((dest.set off (toByte data)).set (off + 1)
      (toByte (data.sshiftRight 8))).set (off + 2)
      (toByte (data.sshiftRight 16))).set (off + 3)
      (toByte (data.sshiftRight 24))).set (off + 4)
      (toByte (data.sshiftRight 32))).set (off + 5)
      (toByte (data.sshiftRight 40))).set (off + 6)
      (toByte (data.sshiftRight 48))).set (off + 7) (toByte (data.sshiftRight 56))

def bytesToShort (data : Vector Byte n) (byteOrder : Option ByteOrder) (off : ℕ)
    (fits : off + 2 ≤ n) : BitVec 16 :=
  if isBig byteOrder then
    (unsigned data[off] <<< 8 ||| unsigned data[1 + off]).setWidth 16
  else
    -- `<<` binds tighter than `&`
    (unsigned data[off] ||| (0xff#32 &&& promote data[1 + off] <<< 8)).setWidth 16

def bytesToInt (data : Vector Byte n) (byteOrder : Option ByteOrder) (off : ℕ)
    (fits : off + 4 ≤ n) : BitVec 32 :=
  if isBig byteOrder then
    unsigned data[off] <<< 24 ||| unsigned data[1 + off] <<< 16 |||
      unsigned data[2 + off] <<< 8 ||| unsigned data[3 + off]
  else
    unsigned data[off] ||| unsigned data[1 + off] <<< 8 |||
      unsigned data[2 + off] <<< 16 ||| unsigned data[3 + off] <<< 24

/-- `(long)(0xff & b)`. -/
def unsignedLong (b : Byte) : BitVec 64 := (unsigned b).signExtend 64

def bytesToLong (data : Vector Byte n) (byteOrder : Option ByteOrder) (off : ℕ)
    (fits : off + 8 ≤ n) : BitVec 64 :=
  if isBig byteOrder then
    unsignedLong data[off] <<< 56 ||| unsignedLong data[1 + off] <<< 48 |||
      unsignedLong data[2 + off] <<< 40 ||| unsignedLong data[3 + off] <<< 32 |||
      unsignedLong data[4 + off] <<< 24 ||| unsignedLong data[5 + off] <<< 16 |||
      unsignedLong data[6 + off] <<< 8 ||| unsignedLong data[7 + off]
  else
    unsignedLong data[off] ||| unsignedLong data[1 + off] <<< 8 |||
      unsignedLong data[2 + off] <<< 16 ||| unsignedLong data[3 + off] <<< 24 |||
      unsignedLong data[4 + off] <<< 32 ||| unsignedLong data[5 + off] <<< 40 |||
      unsignedLong data[6 + off] <<< 48 ||| unsignedLong data[7 + off] <<< 56

/-! ## What stands where -/

/-- The byte of a number of `size` bytes that stands at place `i` of them; this is also the place
of its byte `i`. -/
def place (size : ℕ) (byteOrder : Option ByteOrder) (i : ℕ) : ℕ :=
  if isBig byteOrder then size - 1 - i else i

theorem place_lt {size i : ℕ} (byteOrder : Option ByteOrder) (hi : i < size) :
    place size byteOrder i < size := by
  unfold place
  split <;> omega

theorem place_place {size i : ℕ} (byteOrder : Option ByteOrder) (hi : i < size) :
    place size byteOrder (place size byteOrder i) = i := by
  unfold place
  split <;> omega

section Writing

variable (byteOrder : Option ByteOrder) (dest : Vector Byte n) {off i : ℕ}

theorem shortToBytes_getElem (data : BitVec 16) (fits : off + 2 ≤ n) (hi : i < 2) :
    (shortToBytes data byteOrder dest off fits)[off + i] = byteAt data (place 2 byteOrder i) := by
  by_cases big : isBig byteOrder <;> interval_cases i <;>
    simp [shortToBytes, place, big, toByte_eq, byteAt_ushiftRight_signExtend]

theorem intToBytes_getElem (data : BitVec 32) (fits : off + 4 ≤ n) (hi : i < 4) :
    (intToBytes data byteOrder dest off fits)[off + i] = byteAt data (place 4 byteOrder i) := by
  by_cases big : isBig byteOrder <;> interval_cases i <;>
    simp [intToBytes, place, big, toByte_eq, byteAt_sshiftRight]

theorem longToBytes_getElem (data : BitVec 64) (fits : off + 8 ≤ n) (hi : i < 8) :
    (longToBytes data byteOrder dest off fits)[off + i] = byteAt data (place 8 byteOrder i) := by
  by_cases big : isBig byteOrder <;> interval_cases i <;>
    simp [longToBytes, place, big, toByte_eq, byteAt_sshiftRight]

/-- A byte before or after the two written keeps its value. -/
theorem shortToBytes_getElem_of_outside (data : BitVec 16) (fits : off + 2 ≤ n) (hi : i < n)
    (outside : i < off ∨ off + 2 ≤ i) :
    (shortToBytes data byteOrder dest off fits)[i] = dest[i] := by
  have hne : ∀ k < 2, off + k ≠ i := by omega
  by_cases big : isBig byteOrder <;>
    simp [shortToBytes, big, hne, show off ≠ i from hne 0 (by omega)]

theorem intToBytes_getElem_of_outside (data : BitVec 32) (fits : off + 4 ≤ n) (hi : i < n)
    (outside : i < off ∨ off + 4 ≤ i) :
    (intToBytes data byteOrder dest off fits)[i] = dest[i] := by
  have hne : ∀ k < 4, off + k ≠ i := by omega
  by_cases big : isBig byteOrder <;>
    simp [intToBytes, big, hne, show off ≠ i from hne 0 (by omega)]

theorem longToBytes_getElem_of_outside (data : BitVec 64) (fits : off + 8 ≤ n) (hi : i < n)
    (outside : i < off ∨ off + 8 ≤ i) :
    (longToBytes data byteOrder dest off fits)[i] = dest[i] := by
  have hne : ∀ k < 8, off + k ≠ i := by omega
  by_cases big : isBig byteOrder <;>
    simp [longToBytes, big, hne, show off ≠ i from hne 0 (by omega)]

end Writing

section Reading

variable (byteOrder : Option ByteOrder) (data : Vector Byte n) {off i : ℕ}

theorem byteAt_bytesToShort (big : isBig byteOrder) (fits : off + 2 ≤ n) (hi : i < 2) :
    byteAt (bytesToShort data byteOrder off fits) (place 2 byteOrder i) = data[off + i] := by
  have hplace := place_lt byteOrder hi
  rw [bytesToShort, if_pos big, byteAt_setWidth _ (by omega)]
  interval_cases i <;>
    simp [place, big, unsigned_eq, byteAt_shiftLeft, byteAt_setWidth_byte, Nat.add_comm]

/-- The little-endian `short` is its first byte: the mask takes all of the shifted one away. -/
theorem bytesToShort_of_not_big (big : ¬isBig byteOrder) (fits : off + 2 ≤ n) :
    bytesToShort data byteOrder off fits = data[off].setWidth 16 := by
  have hmask : 0xff#32 &&& promote data[1 + off] <<< 8 = 0 := by
    apply BitVec.eq_of_getLsbD_eq
    intro i hi
    rw [BitVec.getLsbD_and, BitVec.getLsbD_shiftLeft]
    by_cases h8 : i < 8
    · simp [h8]
    · have hff : (0xff#32).getLsbD i = false := by interval_cases i <;> rfl
      rw [hff, Bool.false_and]
      exact BitVec.getLsbD_zero.symm
  rw [bytesToShort, if_neg big, hmask, unsigned_eq]
  simp

theorem byteAt_bytesToInt (fits : off + 4 ≤ n) (hi : i < 4) :
    byteAt (bytesToInt data byteOrder off fits) (place 4 byteOrder i) = data[off + i] := by
  by_cases big : isBig byteOrder <;> interval_cases i <;>
    simp [bytesToInt, place, big, unsigned_eq, byteAt_shiftLeft, byteAt_setWidth_byte,
      Nat.add_comm]

theorem byteAt_bytesToLong (fits : off + 8 ≤ n) (hi : i < 8) :
    byteAt (bytesToLong data byteOrder off fits) (place 8 byteOrder i) = data[off + i] := by
  by_cases big : isBig byteOrder <;> interval_cases i <;>
    simp [bytesToLong, unsignedLong, place, big, signExtend_unsigned, byteAt_shiftLeft,
      byteAt_setWidth_byte, Nat.add_comm]

end Reading

end Conversions

/-! ## The three widths together -/

/-- The types of number converted. -/
inductive Width
  | short
  | int
  | long
  deriving DecidableEq

namespace Width

/-- The bytes a number takes. -/
def bytes : Width → ℕ
  | short => 2
  | int => 4
  | long => 8

/-- The numbers of a width. -/
abbrev Value (w : Width) : Type := BitVec (8 * w.bytes)

variable {n m : ℕ}

def toBytes : (w : Width) → w.Value → Option ByteOrder → Vector Byte n → (off : ℕ) →
    off + w.bytes ≤ n → Vector Byte n
  | short => shortToBytes
  | int => intToBytes
  | long => longToBytes

def fromBytes : (w : Width) → Vector Byte n → Option ByteOrder → (off : ℕ) →
    off + w.bytes ≤ n → w.Value
  | short => bytesToShort
  | int => bytesToInt
  | long => bytesToLong

variable (w : Width) (byteOrder : Option ByteOrder) {off i : ℕ}

theorem toBytes_getElem (data : w.Value) (dest : Vector Byte n) (fits : off + w.bytes ≤ n)
    (hi : i < w.bytes) :
    (w.toBytes data byteOrder dest off fits)[off + i] =
      byteAt data (place w.bytes byteOrder i) := by
  cases w with
  | short => exact shortToBytes_getElem byteOrder dest data fits hi
  | int => exact intToBytes_getElem byteOrder dest data fits hi
  | long => exact longToBytes_getElem byteOrder dest data fits hi

theorem toBytes_getElem_of_outside (data : w.Value) (dest : Vector Byte n)
    (fits : off + w.bytes ≤ n) (hi : i < n) (outside : i < off ∨ off + w.bytes ≤ i) :
    (w.toBytes data byteOrder dest off fits)[i] = dest[i] := by
  cases w with
  | short => exact shortToBytes_getElem_of_outside byteOrder dest data fits hi outside
  | int => exact intToBytes_getElem_of_outside byteOrder dest data fits hi outside
  | long => exact longToBytes_getElem_of_outside byteOrder dest data fits hi outside

/-- The one width and order that is read wrongly. -/
def Misread : Prop := w = short ∧ ¬isBig byteOrder

theorem byteAt_fromBytes (good : ¬w.Misread byteOrder) (data : Vector Byte n)
    (fits : off + w.bytes ≤ n) (hi : i < w.bytes) :
    byteAt (w.fromBytes data byteOrder off fits) (place w.bytes byteOrder i) = data[off + i] := by
  cases w with
  | short =>
    have big : isBig byteOrder := not_not.1 fun hbig => good ⟨rfl, hbig⟩
    exact byteAt_bytesToShort byteOrder data big fits hi
  | int => exact byteAt_bytesToInt byteOrder data fits hi
  | long => exact byteAt_bytesToLong byteOrder data fits hi

/-! ### The round trips -/

/-- What was written at an offset is read back from it. -/
def DecodesWritten (data : w.Value) (dest : Vector Byte n) (off : ℕ)
    (fits : off + w.bytes ≤ n) : Prop :=
  w.fromBytes (w.toBytes data byteOrder dest off fits) byteOrder off fits = data

/-- Writing, anywhere, what was read gives the bytes it was read from. -/
def EncodesRead (source : Vector Byte m) (pos : ℕ) (has : pos + w.bytes ≤ m)
    (dest : Vector Byte n) (off : ℕ) (fits : off + w.bytes ≤ n) : Prop :=
  ∀ (i : ℕ) (hi : i < w.bytes),
    (w.toBytes (w.fromBytes source byteOrder pos has) byteOrder dest off fits)[off + i] =
      source[pos + i]

/-- Writing changes no byte outside the number. -/
def WritesInside (data : w.Value) (dest : Vector Byte n) (off : ℕ)
    (fits : off + w.bytes ≤ n) : Prop :=
  ∀ (i : ℕ) (hi : i < n), i < off ∨ off + w.bytes ≤ i →
    (w.toBytes data byteOrder dest off fits)[i] = dest[i]

theorem decodesWritten (good : ¬w.Misread byteOrder) (data : w.Value) (dest : Vector Byte n)
    (fits : off + w.bytes ≤ n) : w.DecodesWritten byteOrder data dest off fits := by
  apply eq_of_byteAt
  intro k hk
  have hplace := place_lt byteOrder hk
  have hread := w.byteAt_fromBytes byteOrder good (w.toBytes data byteOrder dest off fits) fits
    hplace
  rwa [place_place byteOrder hk, toBytes_getElem w byteOrder data dest fits hplace,
    place_place byteOrder hk] at hread

theorem encodesRead (good : ¬w.Misread byteOrder) (source : Vector Byte m) {pos : ℕ}
    (has : pos + w.bytes ≤ m) (dest : Vector Byte n) (fits : off + w.bytes ≤ n) :
    w.EncodesRead byteOrder source pos has dest off fits := by
  intro i hi
  rw [toBytes_getElem w byteOrder _ dest fits hi]
  exact w.byteAt_fromBytes byteOrder good source has hi

/-- Reading a little-endian `short` back gives its low byte alone. -/
theorem short_decodesWritten_iff (big : ¬isBig byteOrder) (data : BitVec 16)
    (dest : Vector Byte n) (fits : off + 2 ≤ n) :
    short.DecodesWritten byteOrder data dest off fits ↔ byteAt data 1 = 0 := by
  have hread : bytesToShort (shortToBytes data byteOrder dest off fits) byteOrder off fits =
      (byteAt data 0).setWidth 16 := by
    have hfirst := shortToBytes_getElem byteOrder dest data fits (Nat.zero_lt_two)
    rw [place, if_neg big] at hfirst
    rw [bytesToShort_of_not_big byteOrder _ big]
    exact congrArg (BitVec.setWidth 16) hfirst
  show bytesToShort (shortToBytes data byteOrder dest off fits) byteOrder off fits = data ↔ _
  rw [hread]
  constructor
  · intro h
    rw [← h, byteAt_setWidth_byte _ (by omega), if_neg (by omega)]
  · intro h
    apply eq_of_byteAt (n := 2)
    intro k hk
    rw [byteAt_setWidth_byte _ (by omega)]
    interval_cases k
    · rfl
    · exact h.symm

theorem short_encodesRead_iff (big : ¬isBig byteOrder) (source : Vector Byte m) {pos : ℕ}
    (has : pos + 2 ≤ m) (dest : Vector Byte n) (fits : off + 2 ≤ n) :
    short.EncodesRead byteOrder source pos has dest off fits ↔ source[pos + 1] = 0 := by
  have hwrite (i : ℕ) (hi : i < 2) :
      (shortToBytes (bytesToShort source byteOrder pos has) byteOrder dest off fits)[off + i] =
        if i = 0 then source[pos] else 0 := by
    rw [shortToBytes_getElem byteOrder dest _ fits hi, bytesToShort_of_not_big byteOrder _ big,
      place, if_neg big, byteAt_setWidth_byte _ (by omega)]
  constructor
  · intro h
    exact (h 1 (by decide)).symm.trans (hwrite 1 (by omega))
  · intro h i hi
    refine (hwrite i hi).trans ?_
    replace hi : i < 2 := hi
    interval_cases i
    · rfl
    · exact h.symm

section Main

variable (data : w.Value) (dest : Vector Byte n) (off : ℕ) (fits : off + w.bytes ≤ n)
  (source : Vector Byte m) (pos : ℕ) (has : pos + w.bytes ≤ m)

/-- The three properties of a pair of conversions, for a number written at an offset and for the
bytes of another array. -/
structure RoundTrips : Prop where
  decodes : w.DecodesWritten byteOrder data dest off fits
  encodes : w.EncodesRead byteOrder source pos has dest off fits
  inside : w.WritesInside byteOrder data dest off fits

/-- The conversions are inverse to one another except for a little-endian `short` whose high byte
is not zero. -/
theorem roundTrips_iff :
    w.RoundTrips byteOrder data dest off fits source pos has ↔
      (w.Misread byteOrder →
        byteAt data 1 = 0 ∧ ∀ h : pos + 1 < m, source[pos + 1] = 0) := by
  constructor
  · rintro ⟨hdecodes, hencodes, -⟩ ⟨rfl, big⟩
    exact ⟨(short_decodesWritten_iff byteOrder big data dest fits).1 hdecodes,
      fun _ => (short_encodesRead_iff byteOrder big source has dest fits).1 hencodes⟩
  · intro h
    refine ⟨?_, ?_, fun i hi outside => w.toBytes_getElem_of_outside byteOrder data dest fits hi
      outside⟩
    · by_cases good : w.Misread byteOrder
      · obtain ⟨rfl, big⟩ := good
        exact (short_decodesWritten_iff byteOrder big data dest fits).2 (h ⟨rfl, big⟩).1
      · exact w.decodesWritten byteOrder good data dest fits
    · by_cases good : w.Misread byteOrder
      · obtain ⟨rfl, big⟩ := good
        exact (short_encodesRead_iff byteOrder big source has dest fits).2
          ((h ⟨rfl, big⟩).2 (by show pos + 2 ≤ m; exact has))
      · exact w.encodesRead byteOrder good source has dest fits

end Main

/-- A negative integer, written and read behind the first of six bytes. -/
theorem roundTrips_iff_int :
    int.RoundTrips none 0x80ff7f01#32 #v[1, 2, 3, 4, 5, 6] 1 (by decide) #v[9, 8, 7, 6] 0
        (by decide) ∧
      intToBytes 0x80ff7f01#32 none #v[1, 2, 3, 4, 5, 6] 1 (by decide) =
        #v[1, 0x80, 0xff, 0x7f, 1, 6] := by
  have hnot : ¬int.Misread none := fun h => Width.noConfusion h.1
  refine ⟨(roundTrips_iff int none _ _ 1 (by decide) _ 0 (by decide)).mpr fun h => absurd h hnot, ?_⟩
  decide

/-- 256 as a little-endian `short` is written as `00 01` and read back as 0. -/
theorem not_roundTrips_short :
    ¬short.RoundTrips (some .littleEndian) 256#16 #v[0, 0] 0 (by decide) #v[0, 1] 0
      (by decide) := by
  intro h
  have hread : bytesToShort (shortToBytes 256#16 (some .littleEndian) #v[0, 0] 0 (by decide))
      (some .littleEndian) 0 (by decide) = 256#16 := h.decodes
  revert hread
  decide

end Width

end EventTransfer
