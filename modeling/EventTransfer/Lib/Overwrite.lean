import EventTransfer.Lib.Wire

/-!
# Memory that is used again

A program that reads messages into one and the same array finds in it the bytes of the last
message and, behind them, those of longer ones before.

* `overwrite` — the array with other bytes at its beginning.
* `Mem` — an array of a fixed size; `Mem.write` keeps the size.
* `Agree` — two sequences of bytes that do not differ as far as both go.  What is written to an
  array and what is found at its beginning afterwards agree (`agree_of_prefix`), and of what was
  at its beginning only bytes that do not agree get lost (`Agree.prefix_overwrite`).
-/

namespace Wire

/-! ### Writing to an array -/

/-- The array with other bytes from its beginning on. -/
def overwrite (old new : List Byte) : List Byte := new ++ old.drop new.length

theorem length_overwrite {old new : List Byte} (h : new.length ≤ old.length) :
    (overwrite old new).length = old.length := by
  rw [overwrite, List.length_append, List.length_drop]
  omega

theorem take_overwrite (old new : List Byte) : (overwrite old new).take new.length = new :=
  List.take_left

theorem prefix_overwrite (old new : List Byte) : new <+: overwrite old new :=
  List.prefix_append _ _

theorem getElem?_overwrite (old new : List Byte) (i : ℕ) :
    (overwrite old new)[i]? = if i < new.length then new[i]? else old[i]? := by
  rw [overwrite, List.getElem?_append]
  split_ifs with h
  · rfl
  · rw [List.getElem?_drop, Nat.add_sub_cancel' (not_lt.mp h)]

/-- An array of `n` bytes. -/
abbrev Mem (n : ℕ) := { bs : List Byte // bs.length = n }

namespace Mem

variable {n : ℕ}

/-- `memcpy` of bytes for which there is room. -/
def write (m : Mem n) (new : List Byte) (h : new.length ≤ n) : Mem n :=
  ⟨overwrite m.1 new, by rw [length_overwrite (h.trans m.2.ge), m.2]⟩

@[simp] theorem val_write (m : Mem n) (new : List Byte) (h : new.length ≤ n) :
    (m.write new h).1 = overwrite m.1 new := rfl

/-- The array that holds the same byte everywhere. -/
def fill (n : ℕ) (b : Byte) : Mem n := ⟨List.replicate n b, List.length_replicate⟩

theorem getElem?_fill {i : ℕ} (h : i < n) (b : Byte) : (fill n b).1[i]? = some b :=
  List.getElem?_replicate_of_lt h

/-- Bytes at the beginning of a longer array. -/
theorem exists_prefix {bs : List Byte} (h : bs.length ≤ n) : ∃ m : Mem n, bs <+: m.1 :=
  ⟨(fill n 0).write bs h, prefix_overwrite _ _⟩

end Mem

/-! ### Bytes that agree -/

/-- The two do not differ as far as both go. -/
def Agree (xs ys : List Byte) : Prop := xs <+: ys ∨ ys <+: xs

instance (xs ys : List Byte) : Decidable (Agree xs ys) :=
  inferInstanceAs (Decidable (xs <+: ys ∨ ys <+: xs))

theorem agree_of_prefix {xs ys zs : List Byte} (hx : xs <+: zs) (hy : ys <+: zs) : Agree xs ys :=
  List.prefix_or_prefix_of_prefix hx hy

theorem overwrite_eq_self {old new : List Byte} (h : new <+: old) : overwrite old new = old := by
  obtain ⟨rest, rfl⟩ := h
  rw [overwrite, List.drop_left]

/-- What was at the beginning of the array is there after a write that agrees with it. -/
theorem Agree.prefix_overwrite {xs ys old : List Byte} (h : Agree xs ys) (hy : ys <+: old) :
    ys <+: overwrite old xs := by
  rcases h with hxy | hyx
  · rw [overwrite_eq_self (hxy.trans hy)]
    exact hy
  · exact hyx.trans (Wire.prefix_overwrite old xs)

/-! ### Words at the beginning of an array -/

theorem htonl_ntohl {bs : List Byte} (h : bs.length = 4) : htonl (ntohl bs) = bs := by
  obtain ⟨a, b, c, d, rfl⟩ : ∃ a b c d, bs = [a, b, c, d] := by
    match bs, h with
    | [a, b, c, d], _ => exact ⟨a, b, c, d, rfl⟩
  have ha : a.toNat < 2 ^ 8 := a.isLt
  have hb : b.toNat < 2 ^ 8 := b.isLt
  have hc : c.toNat < 2 ^ 8 := c.isLt
  have hd : d.toNat < 2 ^ 8 := d.isLt
  have hword : (ntohl [a, b, c, d]).toNat
      = ((a.toNat * 256 + b.toNat) * 256 + c.toNat) * 256 + d.toNat := by
    simp only [ntohl, List.foldl_cons, List.foldl_nil, BitVec.toNat_ofNat]
    omega
  have hbyte : ∀ (n : ℕ) (x : Byte), n % 256 = x.toNat → BitVec.ofNat 8 n = x := by
    intro n x hn
    apply BitVec.eq_of_toNat_eq
    rw [BitVec.toNat_ofNat]
    exact hn
  simp only [htonl, hword, List.cons.injEq, and_true]
  refine ⟨hbyte _ _ ?_, hbyte _ _ ?_, hbyte _ _ ?_, hbyte _ _ ?_⟩ <;> omega

theorem putWords_getWords {n : ℕ} {bs : List Byte} (h : 4 * n ≤ bs.length) :
    putWords (getWords n bs) = bs.take (4 * n) := by
  induction n generalizing bs with
  | zero => rfl
  | succ n ih =>
      have hdrop : 4 * n ≤ (bs.drop 4).length := by
        rw [List.length_drop]
        omega
      have hfour : (bs.take 4).length = 4 := by
        rw [List.length_take]
        omega
      rw [getWords, putWords_cons, htonl_ntohl hfour, ih hdrop, ← List.take_add,
        show 4 * (n + 1) = 4 + 4 * n by ring]

/-- The array begins with the given words. -/
theorem putWords_prefix_iff {ws : List Word} {bs : List Byte} (h : 4 * ws.length ≤ bs.length) :
    putWords ws <+: bs ↔ getWords ws.length bs = ws := by
  constructor
  · rintro ⟨rest, rfl⟩
    exact getWords_putWords_append ws rest
  · intro hws
    have hput := putWords_getWords h
    rw [hws] at hput
    rw [hput]
    exact List.take_prefix _ _

/-! ### Strings at the beginning of an array -/

/-- The string that an array of more bytes holds. -/
theorem CStr.ofBuffer_eq_iff {s : CStr} {bs : List Byte} (h : s.bytes.length < bs.length) :
    ofBuffer bs = s ↔ s.put <+: bs := by
  have hnul : ∀ b ∈ s.bytes, decide (b ≠ 0) = true := fun b hb =>
    decide_eq_true (ne_of_mem_of_not_mem hb s.nulFree)
  constructor
  · intro hs
    have htake : bs.takeWhile (· ≠ 0) = s.bytes := congrArg CStr.bytes hs
    have hsplit : s.bytes ++ bs.dropWhile (· ≠ 0) = bs := by
      rw [← htake]
      exact List.takeWhile_append_dropWhile
    cases hrest : bs.dropWhile (· ≠ 0) with
    | nil =>
        rw [hrest, List.append_nil] at hsplit
        rw [hsplit] at h
        exact absurd h (lt_irrefl _)
    | cons b rest =>
        have hb : b = 0 := by
          have hhead := List.head?_dropWhile_not (fun b : Byte => decide (b ≠ 0)) bs
          rw [hrest] at hhead
          simpa using hhead
        refine ⟨rest, ?_⟩
        rw [hrest, hb] at hsplit
        rw [CStr.put, List.append_assoc]
        exact hsplit
  · rintro ⟨rest, rfl⟩
    obtain ⟨bytes, nulFree⟩ := s
    simp only [ofBuffer, CStr.put, mk.injEq, List.append_assoc]
    rw [List.takeWhile_append_of_pos hnul]
    simp

/-- The string cut off after some characters. -/
def CStr.cut (s : CStr) (n : ℕ) : CStr :=
  ⟨s.bytes.take n, fun h => s.nulFree (List.mem_of_mem_take h)⟩

@[simp] theorem CStr.cut_length (s : CStr) : s.cut s.bytes.length = s := by
  simp [cut]

/-- A string at the beginning of an array is the only one there. -/
theorem CStr.eq_of_put_prefix {s t : CStr} {bs : List Byte} (hs : s.put <+: bs)
    (ht : t.put <+: bs) : s = t := by
  have hlt : ∀ {u : CStr}, u.put <+: bs → u.bytes.length < bs.length := by
    intro u hu
    have hle := hu.length_le
    rw [length_put] at hle
    omega
  rw [← (ofBuffer_eq_iff (hlt hs)).mpr hs]
  exact (ofBuffer_eq_iff (hlt ht)).mpr ht

end Wire
