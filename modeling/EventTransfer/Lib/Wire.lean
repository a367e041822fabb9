import Mathlib

/-!
# Numbers and strings on a byte stream

What two programs that share a byte stream need to agree on: 32-bit words in network byte
order (`htonl`, `ntohl`), arrays of them (`putWords`), 64-bit numbers as two words
(`highInt`, `lowInt`, `uint64`), and strings that end in a zero byte (`CStr`).

A `Reader` takes its value from the front of a stream and leaves the rest; it fails when the
stream is too short.  Each writer comes with the lemma that says what the matching reader
does on a stream that starts with what was written: it returns the value and leaves exactly
the rest.
-/

namespace Wire

abbrev Byte := BitVec 8

abbrev Word := BitVec 32

/-! ### Words -/

/-- The four bytes of a word, the most significant one first. -/
def htonl (w : Word) : List Byte :=
  [BitVec.ofNat 8 (w.toNat / 2 ^ 24), BitVec.ofNat 8 (w.toNat / 2 ^ 16),
    BitVec.ofNat 8 (w.toNat / 2 ^ 8), BitVec.ofNat 8 w.toNat]

/-- The word with the given bytes. -/
def ntohl (bs : List Byte) : Word :=
  BitVec.ofNat 32 (bs.foldl (fun n b => n * 256 + b.toNat) 0)

@[simp] theorem length_htonl (w : Word) : (htonl w).length = 4 := rfl

@[simp] theorem ntohl_htonl (w : Word) : ntohl (htonl w) = w := by
  apply BitVec.eq_of_toNat_eq
  have hw : w.toNat < 2 ^ 32 := w.isLt
  simp only [ntohl, htonl, List.foldl_cons, List.foldl_nil, BitVec.toNat_ofNat]
  omega

/-- Two words with the same bytes. -/
theorem eq_of_bytes {x y : Word}
    (h : ∀ j : Fin 4, x.extractLsb' (8 * j.1) 8 = y.extractLsb' (8 * j.1) 8) : x = y := by
  apply BitVec.eq_of_getLsbD_eq
  intro i hi
  have hbyte := congrArg (fun b => BitVec.getLsbD b (i % 8)) (h ⟨i / 8, by omega⟩)
  have hlt : i % 8 < 8 := Nat.mod_lt _ (by decide)
  simp only [BitVec.getLsbD_extractLsb', hlt, decide_true, Bool.true_and, Nat.div_add_mod] at hbyte
  exact hbyte

theorem extractLsb'_ntohl (a b c d : Byte) (j : Fin 4) :
    (ntohl [a, b, c, d]).extractLsb' (8 * j.1) 8 = [d, c, b, a].get j := by
  apply BitVec.eq_of_toNat_eq
  have ha := a.isLt
  have hb := b.isLt
  have hc := c.isLt
  have hd := d.isLt
  simp only [BitVec.extractLsb'_toNat, ntohl, List.foldl_cons, List.foldl_nil,
    BitVec.toNat_ofNat, Nat.shiftRight_eq_div_pow]
  fin_cases j <;> simp <;> omega

/-- The bytes of an array of words. -/
def putWords (ws : List Word) : List Byte := ws.flatMap htonl

@[simp] theorem putWords_nil : putWords [] = [] := rfl

@[simp] theorem putWords_cons (w : Word) (ws : List Word) :
    putWords (w :: ws) = htonl w ++ putWords ws := rfl

theorem putWords_append (ws vs : List Word) :
    putWords (ws ++ vs) = putWords ws ++ putWords vs := List.flatMap_append

@[simp] theorem length_putWords (ws : List Word) : (putWords ws).length = 4 * ws.length := by
  induction ws with
  | nil => rfl
  | cons w ws ih =>
      rw [putWords_cons, List.length_append, ih, length_htonl, List.length_cons]
      omega

/-- The first `n` words of a sequence of bytes. -/
def getWords : ℕ → List Byte → List Word
  | 0, _ => []
  | n + 1, bs => ntohl (bs.take 4) :: getWords n (bs.drop 4)

@[simp] theorem length_getWords (n : ℕ) (bs : List Byte) : (getWords n bs).length = n := by
  induction n generalizing bs with
  | zero => rfl
  | succ n ih => rw [getWords, List.length_cons, ih]

theorem getWords_putWords_append (ws : List Word) (rest : List Byte) :
    getWords ws.length (putWords ws ++ rest) = ws := by
  induction ws with
  | nil => rfl
  | cons w ws ih =>
      rw [putWords_cons, List.append_assoc, List.length_cons, getWords,
        List.take_left' (length_htonl w), List.drop_left' (length_htonl w), ntohl_htonl, ih]

@[simp] theorem getWords_putWords {n : ℕ} {ws : List Word} (h : ws.length = n) :
    getWords n (putWords ws) = ws := by
  rw [← h, ← List.append_nil (putWords ws), getWords_putWords_append]

theorem getWords_take (n : ℕ) (bs : List Byte) : getWords n (bs.take (4 * n)) = getWords n bs := by
  induction n generalizing bs with
  | zero => rfl
  | succ n ih =>
      have hdrop : (bs.take (4 * (n + 1))).drop 4 = (bs.drop 4).take (4 * n) := by
        rw [List.drop_take]
        congr 1
      have htake : (bs.take (4 * (n + 1))).take 4 = bs.take 4 := by
        rw [List.take_take, min_eq_left (by omega)]
      rw [getWords, getWords, htake, hdrop, ih]

/-! ### 64-bit numbers -/

/-- `ET_HIGHINT`. -/
def highInt (x : BitVec 64) : Word := BitVec.ofNat 32 (x.toNat / 2 ^ 32)

/-- `ET_LOWINT`. -/
def lowInt (x : BitVec 64) : Word := BitVec.ofNat 32 x.toNat

/-- `ET_64BIT_UINT`. -/
def uint64 (hi lo : Word) : BitVec 64 := BitVec.ofNat 64 (hi.toNat * 2 ^ 32 + lo.toNat)

@[simp] theorem uint64_highInt_lowInt (x : BitVec 64) : uint64 (highInt x) (lowInt x) = x := by
  apply BitVec.eq_of_toNat_eq
  have hx : x.toNat < 2 ^ 64 := x.isLt
  simp only [uint64, highInt, lowInt, BitVec.toNat_ofNat]
  omega

/-! ### Strings -/

/-- **A string of C**: no byte before the terminating zero is zero. -/
structure CStr where
  bytes : List Byte
  nulFree : 0 ∉ bytes
  deriving DecidableEq

namespace CStr

/-- The bytes with the terminating zero: `strlen(s)+1` of them. -/
def put (s : CStr) : List Byte := s.bytes ++ [0]

/-- The string a buffer holds: the bytes before the first zero. -/
def ofBuffer (bs : List Byte) : CStr where
  bytes := bs.takeWhile (· ≠ 0)
  nulFree h := by simpa using List.mem_takeWhile_imp h

@[simp] theorem length_put (s : CStr) : s.put.length = s.bytes.length + 1 := by
  simp [put]

@[simp] theorem ofBuffer_put (s : CStr) : ofBuffer s.put = s := by
  obtain ⟨bytes, nulFree⟩ := s
  have h : ∀ b ∈ bytes, decide (b ≠ 0) = true := by
    intro b hb
    exact decide_eq_true (ne_of_mem_of_not_mem hb nulFree)
  simp only [ofBuffer, put, mk.injEq]
  rw [List.takeWhile_append_of_pos h]
  simp

/-- The empty string. -/
def empty : CStr := ⟨[], List.not_mem_nil⟩

instance : Inhabited CStr := ⟨empty⟩

/-- The length of what is sent of a string, as a word. -/
def size (s : CStr) : Word := BitVec.ofNat 32 (s.bytes.length + 1)

theorem toNat_size {s : CStr} (h : s.bytes.length + 1 < 2 ^ 32) :
    s.size.toNat = s.bytes.length + 1 := by
  rw [size, BitVec.toNat_ofNat, Nat.mod_eq_of_lt h]

theorem length_ofBuffer_lt {bs : List Byte} (h : 0 ∈ bs) : (ofBuffer bs).bytes.length < bs.length := by
  induction bs with
  | nil => exact absurd h List.not_mem_nil
  | cons b bs ih =>
      by_cases hb : b = 0
      · simp [ofBuffer, hb]
      · have hmem : 0 ∈ bs := (List.mem_cons.mp h).resolve_left (Ne.symm hb)
        have hlt : (bs.takeWhile (· ≠ 0)).length < bs.length := ih hmem
        have hcons : (b :: bs).takeWhile (· ≠ 0) = b :: bs.takeWhile (· ≠ 0) :=
          List.takeWhile_cons_of_pos (decide_eq_true hb)
        show ((b :: bs).takeWhile (· ≠ 0)).length < (b :: bs).length
        rw [hcons, List.length_cons, List.length_cons]
        omega

end CStr

/-- A string that fits in an array of `n` characters. -/
abbrev Str (n : ℕ) := { s : CStr // s.bytes.length < n }

theorem Str.toNat_size {n : ℕ} (hn : n < 2 ^ 32) (s : Str n) :
    s.1.size.toNat = s.1.bytes.length + 1 := by
  have h : s.1.bytes.length < n := s.2
  exact CStr.toNat_size (by omega)

/-! ### Readers -/

/-- Takes a value from the front of a stream, if the stream is long enough. -/
abbrev Reader := StateT (List Byte) Option

/-- One reader after another. -/
theorem run_bind_of {α β : Type} {x : Reader α} {f : α → Reader β} {s rest : List Byte} {a : α}
    {r : Option (β × List Byte)} (hx : x.run s = some (a, rest)) (hf : (f a).run rest = r) :
    (x >>= f).run s = r := by
  rw [StateT.run_bind, hx]
  exact hf

/-- The next `n` bytes. -/
def readBytes (n : ℕ) : Reader (List Byte) := fun s =>
  if n ≤ s.length then some (s.take n, s.drop n) else none

/-- The next `n` words. -/
def readWords (n : ℕ) : Reader (List Word) := getWords n <$> readBytes (4 * n)

/-- The next word. -/
def readWord : Reader Word := ntohl <$> readBytes 4

theorem run_readBytes {n : ℕ} {bs : List Byte} (h : bs.length = n) (rest : List Byte) :
    (readBytes n).run (bs ++ rest) = some (bs, rest) := by
  have hle : n ≤ (bs ++ rest).length := by
    rw [List.length_append]
    omega
  simp only [readBytes, StateT.run, if_pos hle]
  rw [List.take_left' h, List.drop_left' h]

theorem run_readWords {n : ℕ} {ws : List Word} (h : ws.length = n) (rest : List Byte) :
    (readWords n).run (putWords ws ++ rest) = some (ws, rest) := by
  have hlen : (putWords ws).length = 4 * n := by rw [length_putWords, h]
  rw [readWords, StateT.run_map, run_readBytes hlen]
  simp [h]

theorem run_readWords_of_le {n : ℕ} {s : List Byte} (h : 4 * n ≤ s.length) :
    (readWords n).run s = some (getWords n s, s.drop (4 * n)) := by
  have hbytes := run_readBytes (List.length_take_of_le h) (s.drop (4 * n))
  rw [List.take_append_drop] at hbytes
  rw [readWords, StateT.run_map, hbytes, ← getWords_take]
  rfl

@[simp] theorem run_readWord (w : Word) (rest : List Byte) :
    readWord.run (htonl w ++ rest) = some (w, rest) := by
  rw [readWord, StateT.run_map, run_readBytes (length_htonl w)]
  simp

@[simp] theorem run_readPut (s : CStr) (rest : List Byte) :
    (readBytes (s.bytes.length + 1)).run (s.put ++ rest) = some (s.put, rest) :=
  run_readBytes s.length_put rest

instance : LawfulBEq Byte := inferInstance

/-- A string of the given length, its zero byte included, into an array of `n` characters.
There is no telling what happens when it does not fit or does not end. -/
def readStr (n : ℕ) (len : ℕ) : Reader (Str n) :=
  if len ≤ n then do
    let bs ← readBytes len
    if h : 0 ∈ bs ∧ bs.length ≤ n then
      return ⟨.ofBuffer bs, (CStr.length_ofBuffer_lt h.1).trans_le h.2⟩
    else failure
  else failure

theorem run_readStr {n : ℕ} (s : Str n) (rest : List Byte) :
    (readStr n (s.1.bytes.length + 1)).run (s.1.put ++ rest) = some (s, rest) := by
  have hs : s.1.bytes.length + 1 ≤ n := s.2
  have hzero : 0#8 ∈ s.1.put := by simp [CStr.put]
  have hlt : s.1.bytes.length < n := s.2
  rw [readStr, if_pos hs, StateT.run_bind, run_readPut]
  simp [hzero, hlt]

/-- `n` values, one after the other. -/
def readMany {α : Type} (x : Reader α) : ℕ → Reader (List α)
  | 0 => return []
  | n + 1 => do
      let a ← x
      return a :: (← readMany x n)

/-- A reader that reads what is written of each value reads what is written of several. -/
theorem run_readMany {α β : Type} {x : Reader α} {write : β → List Byte} {value : β → α}
    {bs : List β} {n : ℕ} (hn : bs.length = n)
    (h : ∀ b ∈ bs, ∀ rest, x.run (write b ++ rest) = some (value b, rest)) (rest : List Byte) :
    (readMany x n).run (bs.flatMap write ++ rest) = some (bs.map value, rest) := by
  subst hn
  induction bs with
  | nil => rfl
  | cons b bs ih =>
      rw [List.flatMap_cons, List.append_assoc]
      refine run_bind_of (h b List.mem_cons_self _) ?_
      exact run_bind_of (ih fun c hc => h c (List.mem_cons_of_mem b hc)) rfl

/-- `n` values, one after the other, up to the first that is not accepted. -/
def readEach {α : Type} (x : Reader (Option α)) : ℕ → Reader (Option (List α))
  | 0 => return some []
  | n + 1 => do
      match ← x with
      | none => return none
      | some a => return (← readEach x n).map (a :: ·)

theorem run_readEach {α β : Type} {x : Reader (Option α)} {write : β → List Byte} {value : β → α}
    {bs : List β} {n : ℕ} (hn : bs.length = n)
    (h : ∀ b ∈ bs, ∀ rest, x.run (write b ++ rest) = some (some (value b), rest))
    (rest : List Byte) :
    (readEach x n).run (bs.flatMap write ++ rest) = some (some (bs.map value), rest) := by
  subst hn
  induction bs with
  | nil => rfl
  | cons b bs ih =>
      rw [List.flatMap_cons, List.append_assoc]
      refine run_bind_of (h b List.mem_cons_self _) ?_
      exact run_bind_of (ih fun c hc => h c (List.mem_cons_of_mem b hc)) rfl

/-- Strings of the given lengths. -/
def readStrs (n : ℕ) : List ℕ → Reader (List (Str n))
  | [] => return []
  | len :: lens => do
      let s ← readStr n len
      return s :: (← readStrs n lens)

theorem run_readStrs {n : ℕ} (hn : n < 2 ^ 32) (ss : List (Str n)) (rest : List Byte) :
    (readStrs n (ss.map fun s => s.1.size.toNat)).run (ss.flatMap (fun s => s.1.put) ++ rest) =
      some (ss, rest) := by
  induction ss with
  | nil => rfl
  | cons s ss ih =>
      rw [List.flatMap_cons, List.append_assoc, List.map_cons, Str.toNat_size hn]
      refine run_bind_of (run_readStr s _) ?_
      exact run_bind_of ih rfl

end Wire
