import EventTransfer.Lib.JavaInt
import Mathlib.Data.List.Basic
import Mathlib.Data.Nat.Digits.Defs

/-!
# Subnets in the Java client

`onSameSubnet`, `isDottedDecimal` and `orderIPAddresses` of `EtUtils.java`.  An IPv4 address is
four bytes, the highest first; `number` is the 32-bit number it stands for.

The source puts an address together from signed bytes, `(b0 << 24) | (b1 << 16) | (b2 << 8) | b3`,
so an octet of 128 and above sets every bit of the octets before it.  `covered` says which bits
these are, and `getLsbD_signedNumber` that they are the only difference from `number`.  Everything
about the subnet test and about the order of addresses follows from that.

The set that `orderIPAddresses` runs through has no order of its own: the results are about every
order in which its elements can come.
-/

namespace EventTransfer

namespace JavaSubnet

open JavaInt

/-- The bytes of an IPv4 address in network order. -/
abbrev Inet4 := Vector Byte 4

/-- The text of an address. -/
abbrev Text := List Char

/-! ## Dotted decimal -/

/-- What one group `(\d{1,3})` of the pattern gives to `Integer.parseInt`, and the check of the
result; the digits cannot make a negative number. -/
def octet (g : Text) : Option ℕ :=
  if 1 ≤ g.length ∧ g.length ≤ 3 ∧ g.all Char.isDigit then
    let n := g.foldl (fun n c => 10 * n + (c.toNat - '0'.toNat)) 0
    if n > 255 then none else some n
  else none

/-- The bytes of a text of four groups with points between them.  No group has a point in it, so
the groups of the pattern are the parts between the points. -/
def isDottedDecimal (ipAddress : Text) : Option Inet4 :=
  match ipAddress.splitOn '.' with
  | [g1, g2, g3, g4] => do
      let n1 ← octet g1
      let n2 ← octet g2
      let n3 ← octet g3
      let n4 ← octet g4
      return #v[BitVec.ofNat 8 n1, BitVec.ofNat 8 n2, BitVec.ofNat 8 n3, BitVec.ofNat 8 n4]
  | _ => none

/-- `Inet4Address.getHostAddress`. -/
def getHostAddress (a : Inet4) : Text :=
  ['.'].intercalate [Nat.toDigits 10 a[0].toNat, Nat.toDigits 10 a[1].toNat,
    Nat.toDigits 10 a[2].toNat, Nat.toDigits 10 a[3].toNat]

theorem octet_toDigits : ∀ n : Fin 256, octet (Nat.toDigits 10 n) = some n.1 := by
  decide +kernel

theorem octet_toDigits_toNat (b : Byte) : octet (Nat.toDigits 10 b.toNat) = some b.toNat :=
  octet_toDigits ⟨b.toNat, b.isLt⟩

/-- A group has no point in it. -/
theorem point_notMem {g : Text} {n : ℕ} (h : octet g = some n) : '.' ∉ g := by
  intro hmem
  rw [octet] at h
  split at h
  · next hg => exact absurd (List.all_eq_true.1 hg.2.2 _ hmem) (by decide)
  · exact absurd h (by simp)

/-- The text of an address is read as the address. -/
@[simp] theorem isDottedDecimal_getHostAddress (a : Inet4) :
    isDottedDecimal (getHostAddress a) = some a := by
  have hpoint : ∀ g ∈ [Nat.toDigits 10 a[0].toNat, Nat.toDigits 10 a[1].toNat,
      Nat.toDigits 10 a[2].toNat, Nat.toDigits 10 a[3].toNat], '.' ∉ g := by
    simp only [List.forall_mem_cons]
    exact ⟨point_notMem (octet_toDigits_toNat _), point_notMem (octet_toDigits_toNat _),
      point_notMem (octet_toDigits_toNat _), point_notMem (octet_toDigits_toNat _), by simp⟩
  rw [isDottedDecimal, getHostAddress, List.splitOn_intercalate _ hpoint (List.cons_ne_nil _ _)]
  simp only [octet_toDigits_toNat, Option.bind_eq_bind, Option.bind_some, Option.pure_def,
    BitVec.ofNat_toNat, BitVec.setWidth_eq, Option.some_inj]
  apply Vector.ext
  intro i hi
  interval_cases i <;> rfl

/-! ## The subnet test -/

/-- The address as the source computes it from its bytes. -/
def signedNumber (b : Inet4) : BitVec 32 :=
  promote b[0] <<< 24 ||| promote b[1] <<< 16 ||| promote b[2] <<< 8 ||| promote b[3]

/-- The form of `onSameSubnet` with an address in raw form; `none` stands for `EtException`. -/
def onSameSubnetRaw (ipAddress1 : Text) (ipAddress2 : Inet4) (subnetMask : BitVec 32) :
    Option Bool := do
  let ipBytes1 ← isDottedDecimal ipAddress1
  let addr1 := signedNumber ipBytes1
  let addr2 := signedNumber ipAddress2
  return addr1 &&& subnetMask == addr2 &&& subnetMask

/-- The form of `onSameSubnet` with two texts. -/
def onSameSubnet (ipAddress1 ipAddress2 : Text) (subnetMask : BitVec 32) : Option Bool := do
  let ipBytes1 ← isDottedDecimal ipAddress1
  let ipBytes2 ← isDottedDecimal ipAddress2
  let addr1 := signedNumber ipBytes1
  let addr2 := signedNumber ipBytes2
  return addr1 &&& subnetMask == addr2 &&& subnetMask

/-- The mask of a prefix length: `subnetMask |= (1 << 31-j)` for each `j` below it.  The distance
of a shift is its low five bits. -/
def prefixMask (prefixLength : ℕ) : BitVec 32 :=
  (List.range prefixLength).foldl
    (fun mask (j : ℕ) => mask ||| 1#32 <<< (((31 : ℤ) - j) % 32).toNat) 0

/-- The 32-bit number an address stands for. -/
def number (b : Inet4) : BitVec 32 := b[0] ++ b[1] ++ b[2] ++ b[3]

/-- Some octet below the one of bit `i` is 128 or more. -/
def Covered (n : BitVec 32) (i : ℕ) : Prop := ∃ k < i / 8, n.getLsbD (8 * k + 7) = true

instance (n : BitVec 32) (i : ℕ) : Decidable (Covered n i) :=
  inferInstanceAs (Decidable (∃ k < i / 8, _))

theorem getLsbD_number (b : Inet4) {i : ℕ} (hi : i < 32) :
    (number b).getLsbD i =
      if i < 8 then b[3].getLsbD i
      else if i < 16 then b[2].getLsbD (i - 8)
      else if i < 24 then b[1].getLsbD (i - 16)
      else b[0].getLsbD (i - 24) := by
  simp only [number, BitVec.getLsbD_append]
  split
  · rfl
  · split
    · rw [if_pos (by omega)]
    · split
      · rw [if_neg (by omega), if_pos (by omega), show i - 8 - 8 = i - 16 by omega]
      · rw [if_neg (by omega), if_neg (by omega), show i - 8 - 8 - 8 = i - 24 by omega]

theorem getLsbD_promote_shiftLeft (b : Byte) {s i : ℕ} (hi : i < 32) :
    (promote b <<< s).getLsbD i =
      if i < s then false else if i < s + 8 then b.getLsbD (i - s) else b.msb := by
  rw [BitVec.getLsbD_shiftLeft, promote, BitVec.getLsbD_signExtend]
  by_cases hs : i < s
  · simp [hs]
  · simp only [hi, hs, show i - s < 32 by omega, decide_true, decide_false, Bool.not_false,
      Bool.true_and, if_false, show i - s < 8 ↔ i < s + 8 by omega]

/-- The octets that can cover bit `i`, by their places. -/
theorem covered_number (b : Inet4) {i : ℕ} (hi : i < 32) :
    Covered (number b) i ↔
      8 ≤ i ∧ b[3].msb = true ∨ 16 ≤ i ∧ b[2].msb = true ∨ 24 ≤ i ∧ b[1].msb = true := by
  have h3 : (number b).getLsbD (8 * 0 + 7) = b[3].msb := by
    rw [getLsbD_number b (by omega), BitVec.msb_eq_getLsbD_last]
    rfl
  have h2 : (number b).getLsbD (8 * 1 + 7) = b[2].msb := by
    rw [getLsbD_number b (by omega), BitVec.msb_eq_getLsbD_last]
    rfl
  have h1 : (number b).getLsbD (8 * 2 + 7) = b[1].msb := by
    rw [getLsbD_number b (by omega), BitVec.msb_eq_getLsbD_last]
    rfl
  constructor
  · rintro ⟨k, hk, hbit⟩
    obtain rfl | rfl | rfl : k = 0 ∨ k = 1 ∨ k = 2 := by omega
    · exact .inl ⟨by omega, h3 ▸ hbit⟩
    · exact .inr (.inl ⟨by omega, h2 ▸ hbit⟩)
    · exact .inr (.inr ⟨by omega, h1 ▸ hbit⟩)
  · rintro (⟨hle, hmsb⟩ | ⟨hle, hmsb⟩ | ⟨hle, hmsb⟩)
    · exact ⟨0, by omega, h3.trans hmsb⟩
    · exact ⟨1, by omega, h2.trans hmsb⟩
    · exact ⟨2, by omega, h1.trans hmsb⟩

/-- The octets above one that is 128 or more are filled with ones, and nothing else differs. -/
theorem getLsbD_signedNumber (b : Inet4) {i : ℕ} (hi : i < 32) :
    (signedNumber b).getLsbD i = true ↔ (number b).getLsbD i = true ∨ Covered (number b) i := by
  have h3 := getLsbD_promote_shiftLeft b[3] (s := 0) hi
  rw [BitVec.shiftLeft_zero] at h3
  rw [covered_number b hi, getLsbD_number b hi, signedNumber, BitVec.getLsbD_or, BitVec.getLsbD_or,
    BitVec.getLsbD_or, getLsbD_promote_shiftLeft _ hi, getLsbD_promote_shiftLeft _ hi,
    getLsbD_promote_shiftLeft _ hi, h3]
  simp only [Bool.or_eq_true]
  rcases Nat.lt_or_ge i 8 with h8 | h8
  · simp [h8, show i < 16 by omega, show i < 24 by omega]
  · rcases Nat.lt_or_ge i 16 with h16 | h16
    · simp [h8, h16, show ¬i < 8 by omega, show i < 24 by omega, show ¬16 ≤ i by omega,
        show ¬24 ≤ i by omega]
    · rcases Nat.lt_or_ge i 24 with h24 | h24
      · simp [h8, h16, h24, show ¬i < 8 by omega, show ¬i < 16 by omega, show ¬24 ≤ i by omega]
        tauto
      · simp [h8, h16, h24, hi, show ¬i < 8 by omega, show ¬i < 16 by omega,
          show ¬i < 24 by omega]
        tauto

/-! ### Masks -/

/-- The mask of a prefix length is made of its highest bits. -/
theorem getLsbD_prefixMask (p : ℕ) {i : ℕ} (hi : i < 32) :
    (prefixMask p).getLsbD i = true ↔ 32 ≤ i + p := by
  induction p with
  | zero =>
      rw [show prefixMask 0 = 0#32 from rfl, BitVec.getLsbD_zero]
      exact iff_of_false Bool.false_ne_true (by omega)
  | succ p ih =>
      have hstep : prefixMask (p + 1) =
          prefixMask p ||| 1#32 <<< (((31 : ℤ) - p) % 32).toNat := by
        rw [prefixMask, List.range_succ, List.foldl_append]
        rfl
      rw [hstep, BitVec.getLsbD_or, Bool.or_eq_true, ih, BitVec.getLsbD_shiftLeft,
        BitVec.getLsbD_one]
      simp only [Bool.and_eq_true, Bool.not_eq_true', decide_eq_true_eq, decide_eq_false_iff_not]
      omega

/-- Two numbers agree on the first `p` bits. -/
def Agree (p : ℕ) (m n : BitVec 32) : Prop :=
  ∀ i < 32, 32 ≤ i + p → (m.getLsbD i = true ↔ n.getLsbD i = true)

theorem and_prefixMask_eq_iff (p : ℕ) (m n : BitVec 32) :
    m &&& prefixMask p = n &&& prefixMask p ↔ Agree p m n := by
  constructor
  · intro h i hi hp
    have hbit := congrArg (fun x => BitVec.getLsbD x i) h
    simp only [BitVec.getLsbD_and, (getLsbD_prefixMask p hi).2 hp, Bool.and_true] at hbit
    rw [hbit]
  · intro h
    apply BitVec.eq_of_getLsbD_eq
    intro i hi
    rw [BitVec.getLsbD_and, BitVec.getLsbD_and, Bool.eq_iff_iff, Bool.and_eq_true,
      Bool.and_eq_true, getLsbD_prefixMask p hi]
    exact and_congr_left fun hp => h i hi hp

/-- What the source compares: each number with the octets filled that its own octets cover. -/
def SignedAgree (p : ℕ) (m n : BitVec 32) : Prop :=
  ∀ i < 32, 32 ≤ i + p →
    (m.getLsbD i = true ∨ Covered m i ↔ n.getLsbD i = true ∨ Covered n i)

theorem agree_signedNumber_iff (p : ℕ) (a b : Inet4) :
    Agree p (signedNumber a) (signedNumber b) ↔ SignedAgree p (number a) (number b) := by
  refine forall_congr' fun i => forall₂_congr fun hi _ => ?_
  rw [getLsbD_signedNumber a hi, getLsbD_signedNumber b hi]

theorem onSameSubnetRaw_eq {s : Text} {a : Inet4} (ha : isDottedDecimal s = some a) (b : Inet4)
    (p : ℕ) : ∃ r, onSameSubnetRaw s b (prefixMask p) = some r ∧
      (r = true ↔ SignedAgree p (number a) (number b)) := by
  refine ⟨signedNumber a &&& prefixMask p == signedNumber b &&& prefixMask p, ?_, ?_⟩
  · simp only [onSameSubnetRaw, ha, Option.bind_eq_bind, Option.bind_some, Option.pure_def]
  · rw [beq_iff_eq, and_prefixMask_eq_iff, agree_signedNumber_iff]

theorem onSameSubnet_eq_raw (s : Text) {t : Text} {b : Inet4} (hb : isDottedDecimal t = some b)
    (m : BitVec 32) : onSameSubnet s t m = onSameSubnetRaw s b m := by
  simp only [onSameSubnet, onSameSubnetRaw, hb, Option.bind_eq_bind, Option.bind_some]

/-! ### When the test is right -/

/-- The answer that says whether the numbers agree. -/
def IsRight (p : ℕ) (m n : BitVec 32) (answer : Option Bool) : Prop :=
  ∃ r, answer = some r ∧ (r = true ↔ Agree p m n)

/-- Where the numbers agree, no bit of the mask is zero that one alone has covered.  Where they
do not, some bit of the mask still tells them apart: it differs and is not covered, or it is
covered in one alone and zero in the other. -/
def TestHolds (p : ℕ) (m n : BitVec 32) : Prop :=
  (Agree p m n → ∀ i < 32, 32 ≤ i + p → m.getLsbD i = false → (Covered m i ↔ Covered n i)) ∧
  (¬Agree p m n → ∃ i < 32, 32 ≤ i + p ∧
    (¬Covered m i ∧ ¬Covered n i ∧ m.getLsbD i ≠ n.getLsbD i ∨
      Covered m i ∧ ¬Covered n i ∧ n.getLsbD i = false ∨
      ¬Covered m i ∧ Covered n i ∧ m.getLsbD i = false))

/-- Without octets of 128 or more the source compares the numbers themselves. -/
theorem signedAgree_iff_of_not_covered {p : ℕ} {m n : BitVec 32} (hm : ∀ i < 32, ¬Covered m i)
    (hn : ∀ i < 32, ¬Covered n i) : SignedAgree p m n ↔ Agree p m n := by
  refine forall_congr' fun i => forall₂_congr fun hi _ => ?_
  rw [or_iff_left (hm i hi), or_iff_left (hn i hi)]

theorem signedAgree_iff_agree (p : ℕ) (m n : BitVec 32) :
    (SignedAgree p m n ↔ Agree p m n) ↔ TestHolds p m n := by
  by_cases hagree : Agree p m n
  · refine ⟨fun h => ⟨fun _ i hi hp hzero => ?_, fun hnot => absurd hagree hnot⟩, fun h => ?_⟩
    · have hbit := hagree i hi hp
      have hsigned := h.2 hagree i hi hp
      rw [← hbit, hzero] at hsigned
      simpa using hsigned
    · refine iff_of_true (fun i hi hp => ?_) hagree
      have hbit := hagree i hi hp
      rw [← hbit]
      cases hm : m.getLsbD i with
      | false => rw [h.1 hagree i hi hp hm]
      | true => simp
  · refine ⟨fun h => ⟨fun h' => absurd h' hagree, fun _ => ?_⟩, fun h => ?_⟩
    · have hnot : ¬SignedAgree p m n := fun hs => hagree (h.1 hs)
      simp only [SignedAgree, not_forall] at hnot
      obtain ⟨i, hi, hp, hdiff⟩ := hnot
      refine ⟨i, hi, hp, ?_⟩
      cases hm : m.getLsbD i <;> cases hn : n.getLsbD i <;> simp_all <;> tauto
    · refine iff_of_false (fun hs => ?_) hagree
      obtain ⟨i, hi, hp, hdiff⟩ := h.2 hagree
      have hsigned := hs i hi hp
      cases hm : m.getLsbD i <;> cases hn : n.getLsbD i <;> simp_all

/-- **The test**, in both forms, is right exactly under this condition. -/
theorem isRight_iff {s t : Text} {a b : Inet4} (ha : isDottedDecimal s = some a)
    (hb : isDottedDecimal t = some b) (p : ℕ) :
    (IsRight p (number a) (number b) (onSameSubnet s t (prefixMask p)) ∧
      IsRight p (number a) (number b) (onSameSubnetRaw s b (prefixMask p))) ↔
      TestHolds p (number a) (number b) := by
  obtain ⟨r, hr, hsigned⟩ := onSameSubnetRaw_eq ha b p
  rw [onSameSubnet_eq_raw s hb, and_self, ← signedAgree_iff_agree, ← hsigned, hr]
  constructor
  · rintro ⟨r', hr', h⟩
    rwa [Option.some_inj.1 hr']
  · exact fun h => ⟨r, rfl, h⟩

/-! ## Local addresses first -/

/-- An address of an interface; the source looks at the IPv4 ones alone. -/
inductive InetAddress
  | v4 (a : Inet4)
  | v6

structure InterfaceAddress where
  address : InetAddress
  prefixLength : ℕ

/-- An interface, with the answers to the two questions the source asks of it; `none` is a
`SocketException`.  When the interfaces cannot be had at all the effect is that of a first one
which does not answer. -/
structure NetworkInterface where
  isUp : Option Bool
  isLoopback : Option Bool
  inAddrs : List InterfaceAddress

/-- The body of the loop over the addresses of an interface. -/
def matchesAddress (ip : Text) (ifAddr : InterfaceAddress) : Bool :=
  match ifAddr.address with
  | .v6 => false
  | .v4 a =>
      onSameSubnet ip (getHostAddress a) (prefixMask ifAddr.prefixLength) == some true

/-- The loop over the interfaces: whether `ip` is put first, with no answer when the loop is
left by a `SocketException`. -/
def onLocalSubnet (ip : Text) : List NetworkInterface → Option Bool
  | [] => some false
  | ni :: rest => do
      let up ← ni.isUp
      if up = false then onLocalSubnet ip rest
      else
        let loopback ← ni.isLoopback
        if loopback = true then onLocalSubnet ip rest
        else if ni.inAddrs.any (matchesAddress ip) then some true
        else onLocalSubnet ip rest

/-- `orderIPAddresses` on the elements of the set as they come.  An address whose loop is left by
an exception is in the result nowhere. -/
def orderIPAddresses (nis : List NetworkInterface) (ipSet : List Text) : List Text :=
  ipSet.foldl
    (fun ipList ip =>
      match onLocalSubnet ip nis with
      | none => ipList
      | some true => ip :: ipList
      | some false => ipList ++ [ip])
    []

/-! ### What the loop over the interfaces finds -/

namespace NetworkInterface

/-- An interface whose addresses are looked at. -/
def Used (ni : NetworkInterface) : Prop := ni.isUp = some true ∧ ni.isLoopback = some false

/-- An interface that leaves the loop by an exception. -/
def Fails (ni : NetworkInterface) : Prop :=
  ni.isUp = none ∨ ni.isUp = some true ∧ ni.isLoopback = none

/-- A text is the address of a host on the subnet of an interface, when numbers are compared
by `rel`. -/
def HasOnSubnet (ni : NetworkInterface) (rel : ℕ → BitVec 32 → BitVec 32 → Prop) (ip : Text) :
    Prop :=
  ni.Used ∧ ∃ a p b, ⟨.v4 a, p⟩ ∈ ni.inAddrs ∧ isDottedDecimal ip = some b ∧
    rel p (number b) (number a)

end NetworkInterface

open NetworkInterface

/-- No exception comes before an interface that matches. -/
def Settled (ip : Text) : List NetworkInterface → Prop
  | [] => True
  | ni :: rest => ¬ni.Fails ∧ (ni.HasOnSubnet SignedAgree ip ∨ Settled ip rest)

/-- Some interface has the address on its subnet. -/
def OnSome (rel : ℕ → BitVec 32 → BitVec 32 → Prop) (nis : List NetworkInterface) (ip : Text) :
    Prop :=
  ∃ ni ∈ nis, ni.HasOnSubnet rel ip

theorem onSameSubnet_eq_some_true_iff (ip : Text) (a : Inet4) (p : ℕ) :
    onSameSubnet ip (getHostAddress a) (prefixMask p) = some true ↔
      ∃ b, isDottedDecimal ip = some b ∧ SignedAgree p (number b) (number a) := by
  rw [onSameSubnet_eq_raw ip (isDottedDecimal_getHostAddress a)]
  cases hb : isDottedDecimal ip with
  | none =>
    have hnone : onSameSubnetRaw ip a (prefixMask p) = none := by
      simp only [onSameSubnetRaw, hb, Option.bind_eq_bind, Option.bind_none]
    rw [hnone]
    simp
  | some b =>
    obtain ⟨r, hr, hsigned⟩ := onSameSubnetRaw_eq hb a p
    rw [hr, Option.some_inj, hsigned]
    simp

theorem any_matchesAddress_iff {ni : NetworkInterface} (hused : ni.Used) (ip : Text) :
    ni.inAddrs.any (matchesAddress ip) = true ↔ ni.HasOnSubnet SignedAgree ip := by
  rw [List.any_eq_true]
  constructor
  · rintro ⟨⟨address, p⟩, hmem, hmatch⟩
    cases address with
    | v6 => exact absurd hmatch Bool.false_ne_true
    | v4 a =>
      obtain ⟨b, hb, hagree⟩ := (onSameSubnet_eq_some_true_iff ip a p).1 (beq_iff_eq.1 hmatch)
      exact ⟨hused, a, p, b, hmem, hb, hagree⟩
  · rintro ⟨-, a, p, b, hmem, hb, hagree⟩
    exact ⟨_, hmem, beq_iff_eq.2 ((onSameSubnet_eq_some_true_iff ip a p).2 ⟨b, hb, hagree⟩)⟩

/-- **The loop over the interfaces** ends with an exception or with whether one matches. -/
theorem onLocalSubnet_cases (ip : Text) (nis : List NetworkInterface) :
    ¬Settled ip nis ∧ onLocalSubnet ip nis = none ∨
      Settled ip nis ∧ OnSome SignedAgree nis ip ∧ onLocalSubnet ip nis = some true ∨
      Settled ip nis ∧ ¬OnSome SignedAgree nis ip ∧ onLocalSubnet ip nis = some false := by
  induction nis with
  | nil => exact .inr (.inr ⟨trivial, by simp [OnSome], rfl⟩)
  | cons ni rest ih =>
      by_cases hfails : ni.Fails
      · refine .inl ⟨fun h => h.1 hfails, ?_⟩
        rcases hfails with hup | ⟨hup, hloop⟩
        · simp only [onLocalSubnet, hup, Option.bind_eq_bind, Option.bind_none]
        · simp only [onLocalSubnet, hup, hloop, Option.bind_eq_bind, Option.bind_some,
            Option.bind_none, Bool.true_eq_false, if_false]
      · by_cases hmatch : ni.HasOnSubnet SignedAgree ip
        · refine .inr (.inl ⟨⟨hfails, .inl hmatch⟩, ⟨ni, List.mem_cons_self, hmatch⟩, ?_⟩)
          have hany := (any_matchesAddress_iff hmatch.1 ip).2 hmatch
          simp only [onLocalSubnet, hmatch.1.1, hmatch.1.2, hany, Option.bind_eq_bind,
            Option.bind_some, Bool.true_eq_false, Bool.false_eq_true, if_false, if_true]
        · -- the interface is passed over or has no match
          have hskip : onLocalSubnet ip (ni :: rest) = onLocalSubnet ip rest := by
            obtain ⟨up, loopback, addrs⟩ := ni
            match up, loopback with
            | none, _ => exact absurd (.inl rfl) hfails
            | some true, none => exact absurd (.inr ⟨rfl, rfl⟩) hfails
            | some false, _ => rfl
            | some true, some true => rfl
            | some true, some false =>
              have hany : addrs.any (matchesAddress ip) ≠ true := fun hany =>
                hmatch ((any_matchesAddress_iff ⟨rfl, rfl⟩ ip).1 hany)
              simp only [onLocalSubnet, hany, Option.bind_eq_bind, Option.bind_some,
                Bool.true_eq_false, Bool.false_eq_true, if_false]
          have hsettled : Settled ip (ni :: rest) ↔ Settled ip rest := by
            simp only [Settled, hfails, hmatch, not_false_eq_true, true_and, false_or]
          have honsome : OnSome SignedAgree (ni :: rest) ip ↔ OnSome SignedAgree rest ip := by
            simp only [OnSome, List.exists_mem_cons_iff, hmatch, false_or]
          rw [hskip, hsettled, honsome]
          exact ih

theorem onLocalSubnet_eq_none_iff (ip : Text) (nis : List NetworkInterface) :
    onLocalSubnet ip nis = none ↔ ¬Settled ip nis := by
  rcases onLocalSubnet_cases ip nis with ⟨h, heq⟩ | ⟨h, -, heq⟩ | ⟨h, -, heq⟩ <;> simp [h, heq]

theorem onLocalSubnet_eq_true_iff {ip : Text} {nis : List NetworkInterface}
    (hsettled : Settled ip nis) :
    onLocalSubnet ip nis = some true ↔ OnSome SignedAgree nis ip := by
  rcases onLocalSubnet_cases ip nis with ⟨h, heq⟩ | ⟨-, h, heq⟩ | ⟨-, h, heq⟩
  · exact absurd hsettled h
  · simp [h, heq]
  · simp [h, heq]

/-! ### The order of the result -/

section Order

variable (nis : List NetworkInterface)

/-- Addresses put first come in reverse, those put last follow in order. -/
theorem orderIPAddresses_eq (ips : List Text) :
    orderIPAddresses nis ips =
      (ips.filter fun ip => onLocalSubnet ip nis = some true).reverse ++
        ips.filter fun ip => onLocalSubnet ip nis = some false := by
  have hfold : ∀ acc : List Text,
      ips.foldl (fun ipList ip =>
        match onLocalSubnet ip nis with
        | none => ipList
        | some true => ip :: ipList
        | some false => ipList ++ [ip]) acc =
      (ips.filter fun ip => onLocalSubnet ip nis = some true).reverse ++ acc ++
        ips.filter fun ip => onLocalSubnet ip nis = some false := by
    induction ips with
    | nil => exact fun acc => (List.append_nil acc).symm
    | cons ip ips ih =>
        intro acc
        rw [List.foldl_cons, ih]
        rcases h : onLocalSubnet ip nis with - | - | -
        · simp [h]
        · simp [h]
        · simp [h]
  rw [orderIPAddresses, hfold, List.append_nil]

theorem mem_orderIPAddresses {ips : List Text} {ip : Text} :
    ip ∈ orderIPAddresses nis ips ↔ ip ∈ ips ∧ Settled ip nis := by
  rw [orderIPAddresses_eq, List.mem_append, List.mem_reverse, List.mem_filter, List.mem_filter]
  have hnone := onLocalSubnet_eq_none_iff ip nis
  rcases h : onLocalSubnet ip nis with - | - | - <;> simp_all

/-- A list has the elements of another, each once. -/
def DistinctOf (ips l : List Text) : Prop := ips.Nodup ∧ ∀ ip, ip ∈ ips ↔ ip ∈ l

theorem nodup_orderIPAddresses {ips : List Text} (hnodup : ips.Nodup) :
    (orderIPAddresses nis ips).Nodup := by
  rw [orderIPAddresses_eq]
  refine (List.nodup_reverse.2 (hnodup.filter _)).append (hnodup.filter _) fun ip hfirst hlast => ?_
  have htrue := of_decide_eq_true (List.mem_filter.1 (List.mem_reverse.1 hfirst)).2
  have hfalse := of_decide_eq_true (List.mem_filter.1 hlast).2
  rw [htrue] at hfalse
  exact absurd hfalse (by decide)

/-- The addresses on the subnet of some interface come before all others. -/
def LocalFirst (result : List Text) : Prop :=
  result.Pairwise fun x y => OnSome Agree nis y → OnSome Agree nis x

/-- In whichever order the set is run through, the result has the distinct addresses and the
local ones first. -/
def OrdersRight (l : List Text) : Prop :=
  ∀ ips, DistinctOf ips l →
    DistinctOf (orderIPAddresses nis ips) l ∧ LocalFirst nis (orderIPAddresses nis ips)

/-- No exception is met before a match, and either there is nothing to put in order, as all
addresses are local or none is, or the source's comparison finds out rightly which ones are. -/
structure OrderHolds (l : List Text) : Prop where
  settled : ∀ ip ∈ l, Settled ip nis
  rightly : (∀ ip ∈ l, OnSome Agree nis ip) ∨ (∀ ip ∈ l, ¬OnSome Agree nis ip) ∨
    ∀ ip ∈ l, (OnSome SignedAgree nis ip ↔ OnSome Agree nis ip)

variable {nis}

/-- Any two elements can come first, in either order. -/
theorem exists_distinctOf {l : List Text} {a b : Text} (ha : a ∈ l) (hb : b ∈ l) (hne : a ≠ b) :
    ∃ rest, DistinctOf (a :: b :: rest) l := by
  refine ⟨l.dedup.filter fun ip => ip ≠ a ∧ ip ≠ b, ?_, fun ip => ?_⟩
  · simp [List.nodup_cons, hne, l.nodup_dedup.filter]
  · by_cases hipa : ip = a
    · simp [hipa, ha]
    · by_cases hipb : ip = b
      · simp [hipb, hb]
      · simp [hipa, hipb]

/-- A local address and another must be told apart by the source. -/
theorem told_apart {l : List Text} (h : OrdersRight nis l) (hsettled : ∀ ip ∈ l, Settled ip nis)
    {a b : Text} (ha : a ∈ l) (hb : b ∈ l) (hlocal : OnSome Agree nis a)
    (hother : ¬OnSome Agree nis b) :
    onLocalSubnet a nis = some true ∧ onLocalSubnet b nis = some false := by
  have hne : a ≠ b := by
    rintro rfl
    exact hother hlocal
  -- `b` may not come before `a`
  have hnot : ∀ ips, DistinctOf ips l → ¬[b, a].Sublist (orderIPAddresses nis ips) := by
    intro ips hips hsub
    have hpair := (h ips hips).2.sublist hsub
    exact hother (List.pairwise_pair.1 hpair hlocal)
  obtain ⟨rest, hab⟩ := exists_distinctOf ha hb hne
  obtain ⟨rest', hba⟩ := exists_distinctOf hb ha hne.symm
  have hfirst := hnot _ hab
  have hlast := hnot _ hba
  rw [orderIPAddresses_eq] at hfirst hlast
  have hsa := mt (onLocalSubnet_eq_none_iff a nis).1 (not_not.2 (hsettled a ha))
  have hsb := mt (onLocalSubnet_eq_none_iff b nis).1 (not_not.2 (hsettled b hb))
  -- in every other case `b` comes before `a` in one of the two results
  rcases hca : onLocalSubnet a nis with - | - | - <;>
    rcases hcb : onLocalSubnet b nis with - | - | - <;> simp_all

theorem orderHolds_of_ordersRight {l : List Text} (h : OrdersRight nis l) : OrderHolds nis l := by
  have hsettled : ∀ ip ∈ l, Settled ip nis := by
    intro ip hip
    have hdistinct : DistinctOf l.dedup l := ⟨l.nodup_dedup, fun _ => List.mem_dedup⟩
    exact ((mem_orderIPAddresses nis).1 (((h _ hdistinct).1.2 ip).2 hip)).2
  refine ⟨hsettled, ?_⟩
  by_cases hlocal : ∃ a ∈ l, OnSome Agree nis a
  · by_cases hother : ∃ b ∈ l, ¬OnSome Agree nis b
    · obtain ⟨a, ha, hla⟩ := hlocal
      obtain ⟨b, hb, hob⟩ := hother
      refine .inr (.inr fun ip hip => ?_)
      rw [← onLocalSubnet_eq_true_iff (hsettled ip hip)]
      by_cases hip' : OnSome Agree nis ip
      · exact iff_of_true (told_apart h hsettled hip hb hip' hob).1 hip'
      · refine iff_of_false (fun htrue => ?_) hip'
        have hfalse := (told_apart h hsettled ha hip hla hip').2
        rw [htrue] at hfalse
        exact absurd hfalse (by decide)
    · exact .inl fun ip hip => by_contra fun hn => hother ⟨ip, hip, hn⟩
  · exact .inr (.inl fun ip hip hn => hlocal ⟨ip, hip, hn⟩)

theorem ordersRight_of_orderHolds {l : List Text} (h : OrderHolds nis l) : OrdersRight nis l := by
  intro ips hips
  have hmem : ∀ ip, ip ∈ orderIPAddresses nis ips ↔ ip ∈ l := by
    intro ip
    rw [mem_orderIPAddresses, hips.2]
    exact and_iff_left_of_imp (h.settled ip)
  refine ⟨⟨nodup_orderIPAddresses nis hips.1, hmem⟩, ?_⟩
  rcases h.rightly with hall | hnone | hright
  · exact List.pairwise_of_forall_mem_list fun x hx _ _ _ => hall x ((hmem x).1 hx)
  · exact List.pairwise_of_forall_mem_list fun _ _ y hy hlocal =>
      absurd hlocal (hnone y ((hmem y).1 hy))
  · -- the first part has the local addresses and the second the others
    have hfirst : ∀ x ∈ ips, onLocalSubnet x nis = some true → OnSome Agree nis x :=
      fun x hx htrue => (hright x ((hips.2 x).1 hx)).1
        ((onLocalSubnet_eq_true_iff (h.settled x ((hips.2 x).1 hx))).1 htrue)
    have hlast : ∀ y ∈ ips, onLocalSubnet y nis = some false → ¬OnSome Agree nis y := by
      intro y hy hfalse hlocal
      have hsettled := h.settled y ((hips.2 y).1 hy)
      have htrue := (onLocalSubnet_eq_true_iff hsettled).2 ((hright y ((hips.2 y).1 hy)).2 hlocal)
      rw [htrue] at hfalse
      exact absurd hfalse (by decide)
    show List.Pairwise _ (orderIPAddresses nis ips)
    rw [orderIPAddresses_eq, List.pairwise_append]
    refine ⟨?_, ?_, ?_⟩
    · refine List.pairwise_of_forall_mem_list fun x hx _ _ _ => ?_
      have hx := List.mem_filter.1 (List.mem_reverse.1 hx)
      exact hfirst x hx.1 (of_decide_eq_true hx.2)
    · refine List.pairwise_of_forall_mem_list fun _ _ y hy hlocal => ?_
      have hy := List.mem_filter.1 hy
      exact absurd hlocal (hlast y hy.1 (of_decide_eq_true hy.2))
    · intro x hx y _ _
      have hx := List.mem_filter.1 (List.mem_reverse.1 hx)
      exact hfirst x hx.1 (of_decide_eq_true hx.2)

end Order

/-! ## The result -/

/-- **The subnet test and the order of addresses**: each does what it is meant to exactly under
its condition. -/
theorem subnets_iff (s t : Text) (a b : Inet4) (ha : isDottedDecimal s = some a)
    (hb : isDottedDecimal t = some b) (p : ℕ) (nis : List NetworkInterface) (l : List Text) :
    ((IsRight p (number a) (number b) (onSameSubnet s t (prefixMask p)) ∧
        IsRight p (number a) (number b) (onSameSubnetRaw s b (prefixMask p))) ↔
      TestHolds p (number a) (number b)) ∧
    (OrdersRight nis l ↔ OrderHolds nis l) :=
  ⟨isRight_iff ha hb p, orderHolds_of_ordersRight, ordersRight_of_orderHolds⟩

/-- Hosts of one network of 256. -/
def host : Inet4 := #v[10, 1, 2, 200]

def neighbour : Inet4 := #v[10, 1, 2, 3]

def secondNeighbour : Inet4 := #v[10, 1, 2, 4]

/-- An address that is not on their network. -/
def stranger : Inet4 := #v[10, 9, 9, 9]

def network : List NetworkInterface :=
  [⟨some true, some false, [⟨.v4 neighbour, 24⟩]⟩]

/-- The neighbours are found on one subnet, and the one that is no interface comes before the
stranger. -/
theorem subnets_iff_neighbours :
    IsRight 24 (number secondNeighbour) (number neighbour)
        (onSameSubnet (getHostAddress secondNeighbour) (getHostAddress neighbour)
          (prefixMask 24)) ∧
      OrdersRight network [getHostAddress stranger, getHostAddress secondNeighbour] := by
  have hneighbour : ∀ i < 32, ¬Covered (number neighbour) i := by decide
  have hsecond : ∀ i < 32, ¬Covered (number secondNeighbour) i := by decide
  have hstranger : ∀ i < 32, ¬Covered (number stranger) i := by decide
  have hiff := subnets_iff _ _ secondNeighbour neighbour (isDottedDecimal_getHostAddress _)
    (isDottedDecimal_getHostAddress _) 24 network
    [getHostAddress stranger, getHostAddress secondNeighbour]
  refine ⟨(hiff.1.mpr ?_).1, hiff.2.mpr ⟨fun ip _ => ⟨?_, .inr trivial⟩, .inr (.inr ?_)⟩⟩
  · exact (signedAgree_iff_agree 24 _ _).mp (signedAgree_iff_of_not_covered hsecond hneighbour)
  · rintro (h | ⟨-, h⟩)
    · cases h
    · cases h
  · intro ip hip
    obtain ⟨x, rfl, hx⟩ : ∃ x, ip = getHostAddress x ∧ ∀ i < 32, ¬Covered (number x) i := by
      rcases List.mem_pair.mp hip with rfl | rfl
      · exact ⟨stranger, rfl, hstranger⟩
      · exact ⟨secondNeighbour, rfl, hsecond⟩
    refine exists_congr fun ni => and_congr_right fun hni => ?_
    obtain rfl := List.mem_singleton.mp hni
    refine and_congr_right fun _ => exists_congr fun a => exists_congr fun p => exists_congr
      fun b => and_congr_right fun ha => and_congr_right fun hb => ?_
    obtain ⟨rfl, rfl⟩ : a = neighbour ∧ p = 24 := by simpa using ha
    rw [isDottedDecimal_getHostAddress, Option.some_inj] at hb
    exact signedAgree_iff_of_not_covered (hb ▸ hx) hneighbour

theorem agree_host_neighbour : Agree 24 (number host) (number neighbour) := by
  unfold Agree
  decide

theorem not_agree_stranger_neighbour : ¬Agree 24 (number stranger) (number neighbour) := by
  unfold Agree
  decide

/-- The last octet of the host fills the others with ones: the test says it is on another subnet
than its neighbour, and it is put behind a stranger. -/
theorem not_subnets :
    ¬IsRight 24 (number host) (number neighbour)
      (onSameSubnet (getHostAddress host) (getHostAddress neighbour) (prefixMask 24)) ∧
    ¬OrdersRight network [getHostAddress host, getHostAddress stranger] := by
  constructor
  · rintro ⟨r, hr, hright⟩
    have hfalse : onSameSubnet (getHostAddress host) (getHostAddress neighbour) (prefixMask 24) =
        some false := by decide +kernel
    rw [hfalse, Option.some_inj] at hr
    exact Bool.false_ne_true (hr.trans (hright.2 agree_host_neighbour))
  · intro h
    have hdistinct : DistinctOf [getHostAddress stranger, getHostAddress host]
        [getHostAddress host, getHostAddress stranger] :=
      ⟨by decide +kernel, fun ip => by simp [or_comm]⟩
    have horder : orderIPAddresses network [getHostAddress stranger, getHostAddress host] =
        [getHostAddress stranger, getHostAddress host] := by decide +kernel
    have hfirst := (h _ hdistinct).2
    rw [horder] at hfirst
    have hlocal : OnSome Agree network (getHostAddress host) :=
      ⟨_, List.mem_singleton_self _, ⟨rfl, rfl⟩, neighbour, 24, host, List.mem_singleton_self _,
        isDottedDecimal_getHostAddress _, agree_host_neighbour⟩
    obtain ⟨ni, hni, -, a, p, b, haddr, hb, hagree⟩ := List.pairwise_pair.1 hfirst hlocal
    obtain rfl := List.mem_singleton.1 hni
    obtain ⟨rfl, rfl⟩ : a = neighbour ∧ p = 24 := by simpa using haddr
    rw [isDottedDecimal_getHostAddress, Option.some_inj] at hb
    exact not_agree_stranger_neighbour (hb ▸ hagree)

end JavaSubnet

end EventTransfer
