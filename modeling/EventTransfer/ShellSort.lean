import EventTransfer.Lib.GapSort

/-!
# The sort with a companion array

`shellSort` of `et_system.c` and of `StationLocal.java`: an array is sorted from index `1` to `n`
and a second array is moved along with it.  The two differ in the type of the gap `inc`, which is
unsigned in one and signed in the other; this decides when the loop that looks for the first gap
stops once `inc * 3 + 1` no longer fits 32 bits.

* An array is a function on its indices that only `load` and `store` apply and change, and those
  have no result at an index outside `1 … n`.  A sort that returns has used no other index.
* `shiftUp`, `insert` and `pass` are the body of the second loop, and `pass_eq` says that it is
  `GapSort.gapPass` on the two arrays together.
* `sortsTogether_iff` — the sorts do what they are meant to for every pair of arrays up to a length
  which depends on the type of the gap, and beyond it they do not.
* `sortsTogether_of_passed` — no conductor passes arrays as long as that.
-/

namespace EventTransfer

namespace ShellSort

/-- A 32-bit integer. -/
abbrev Word := BitVec 32

/-- The two arrays. -/
@[ext]
structure Arrays where
  a : ℕ → Word
  b : ℕ → Word

/-- `a[i]`, when `i` is an index. -/
def load (n : ℕ) (a : ℕ → Word) (i : ℕ) : Option Word :=
  if 1 ≤ i ∧ i ≤ n then some (a i) else none

/-- `a[i] = v`, when `i` is an index. -/
def store (n : ℕ) (a : ℕ → Word) (i : ℕ) (v : Word) : Option (ℕ → Word) :=
  if 1 ≤ i ∧ i ≤ n then some (Function.update a i v) else none

/-- The loop `while (a[j-inc] > v)`: both arrays move up by `inc`, and `j` moves down.  It gives
the `j` it stops at and the arrays.  The first number bounds its steps: there is no result when
they do not suffice. -/
def shiftUp (n inc : ℕ) (v : Word) : ℕ → ℕ → Arrays → Option (ℕ × Arrays)
  | 0, _, _ => none
  | fuel + 1, j, s => do
      let x ← load n s.a (j - inc)
      if v.slt x then
        let y ← load n s.b (j - inc)
        let a ← store n s.a j x
        let b ← store n s.b j y
        if j - inc ≤ inc then some (j - inc, ⟨a, b⟩) else shiftUp n inc v fuel (j - inc) ⟨a, b⟩
      else some (j, s)

/-- One turn of the `for` loop. -/
def insert (n inc : ℕ) (s : Arrays) (i : ℕ) : Option Arrays := do
  let v ← load n s.a i
  let w ← load n s.b i
  let (j, s) ← shiftUp n inc v i i s
  let a ← store n s.a j v
  let b ← store n s.b j w
  return ⟨a, b⟩

/-- The `for` loop with one gap. -/
def pass (n inc : ℕ) (s : Arrays) : Option Arrays :=
  (List.range' (inc + 1) (n - inc)).foldlM (insert n inc) s

/-- The second `do` loop: the gap is divided by three before each pass, and the last pass is the
one whose gap is not above one. -/
def passes (n inc : ℕ) (s : Arrays) : Option Arrays := do
  let s ← pass n (inc / 3) s
  if 1 < inc / 3 then passes n (inc / 3) s else some s
  termination_by inc

/-- The first `do` loop.  `continues` is its condition; the number bounds its turns. -/
def firstGap (continues : Word → Bool) : ℕ → Word → Option Word
  | 0, _ => none
  | fuel + 1, inc =>
      let inc := inc * 3 + 1
      if continues inc then firstGap continues fuel inc else some inc

/-- The condition `inc <= n` of an unsigned `inc`. -/
def unsignedLe (n : ℕ) (inc : Word) : Bool := inc.toNat ≤ n

/-- The condition `inc <= n` of a signed `inc`. -/
def signedLe (n : ℕ) (inc : Word) : Bool := inc.toInt ≤ n

/-- Both loops.  The gap the first one ends with is above `n`, so it is not negative as a signed
number, and all that is computed from it afterwards lies between zero and it. -/
def sort (continues : ℕ → Word → Bool) (fuel n : ℕ) (s : Arrays) : Option Arrays := do
  let inc ← firstGap (continues n) fuel 1
  passes n inc.toNat s

/-- The two copies of the routine. -/
inductive Copy
  | etSystem
  | stationLocal
  deriving DecidableEq

/-- `inc` is an `unsigned int` in C and an `int` in Java. -/
def Copy.continues : Copy → ℕ → Word → Bool
  | etSystem => unsignedLe
  | stationLocal => signedLe

def Copy.shellSort (c : Copy) : ℕ → ℕ → Arrays → Option Arrays := sort c.continues

/-! ## The arrays as one array of pairs -/

theorem load_of_mem {n i : ℕ} (h : 1 ≤ i ∧ i ≤ n) (a : ℕ → Word) : load n a i = some (a i) :=
  if_pos h

theorem store_of_mem {n i : ℕ} (h : 1 ≤ i ∧ i ≤ n) (a : ℕ → Word) (v : Word) :
    store n a i v = some (Function.update a i v) := if_pos h

/-- Element `i` of both arrays. -/
def Arrays.pairs (s : Arrays) (i : ℕ) : Word × Word := (s.a i, s.b i)

@[simp] theorem Arrays.pairs_apply (s : Arrays) (i : ℕ) : s.pairs i = (s.a i, s.b i) := rfl

/-- Pairs are sorted by their first part. -/
def key (p : Word × Word) : ℕ := (p.1.toInt + 2 ^ 31).toNat

theorem key_le_key {p q : Word × Word} : key p ≤ key q ↔ p.1.toInt ≤ q.1.toInt := by
  have hp := p.1.le_toInt
  have hq := q.1.le_toInt
  unfold key
  omega

theorem slt_iff {v : Word} (w : Word) {p : Word × Word} :
    v.slt p.1 = true ↔ key (v, w) < key p := by
  rw [BitVec.slt_iff_toInt_lt, ← not_le, ← not_le, key_le_key]

theorem pairs_update (s : Arrays) (i : ℕ) (v w : Word) :
    Arrays.pairs ⟨Function.update s.a i v, Function.update s.b i w⟩ =
      Function.update s.pairs i (v, w) := by
  funext k
  rcases eq_or_ne k i with rfl | hk
  · simp only [Arrays.pairs_apply, Function.update_self]
  · simp only [Arrays.pairs_apply, Function.update_of_ne hk]

open GapSort

/-- **The inner loop** stops, uses no index outside, and with `v` and `w` put where it stops it
has sifted them down. -/
theorem shiftUp_eq {n inc : ℕ} (hinc : 0 < inc) (v w : Word) {fuel j : ℕ} (hfuel : j ≤ fuel)
    (hj : inc < j) (hn : j ≤ n) (s : Arrays) :
    ∃ j' s', shiftUp n inc v fuel j s = some (j', s') ∧ (1 ≤ j' ∧ j' ≤ n) ∧
      Function.update s'.pairs j' (v, w) = sift key inc (v, w) fuel j s.pairs := by
  induction fuel generalizing j s with
  | zero => omega
  | succ fuel ih =>
      have hbelow : 1 ≤ j - inc ∧ j - inc ≤ n := by omega
      have hhere : 1 ≤ j ∧ j ≤ n := by omega
      by_cases hlt : v.slt (s.a (j - inc)) = true
      · -- both elements move up from `j - inc`
        let t : Arrays := ⟨Function.update s.a j (s.a (j - inc)),
          Function.update s.b j (s.b (j - inc))⟩
        have ht : t.pairs = Function.update s.pairs j (s.pairs (j - inc)) := pairs_update s j _ _
        have hsift : sift key inc (v, w) (fuel + 1) j s.pairs =
            if j - inc ≤ inc then Function.update t.pairs (j - inc) (v, w)
            else sift key inc (v, w) fuel (j - inc) t.pairs := by
          rw [sift, if_pos ((slt_iff w (p := s.pairs (j - inc))).1 hlt), ht]
        have hshift : shiftUp n inc v (fuel + 1) j s =
            if j - inc ≤ inc then some (j - inc, t) else shiftUp n inc v fuel (j - inc) t := by
          simp only [shiftUp, load_of_mem hbelow, store_of_mem hhere, Option.bind_eq_bind,
            Option.bind_some, hlt, if_true, t]
        rw [hsift, hshift]
        by_cases hend : j - inc ≤ inc
        · rw [if_pos hend, if_pos hend]
          exact ⟨_, _, rfl, hbelow, rfl⟩
        · rw [if_neg hend, if_neg hend]
          exact ih (by omega) (by omega) (by omega) t
      · refine ⟨j, s, ?_, hhere, ?_⟩
        · simp only [shiftUp, load_of_mem hbelow, Option.bind_eq_bind, Option.bind_some, hlt,
            if_false, Bool.false_eq_true]
        · rw [sift, if_neg fun h => hlt ((slt_iff w (p := s.pairs (j - inc))).2 h)]

theorem insert_eq {n inc i : ℕ} (hinc : 0 < inc) (hi : inc < i) (hn : i ≤ n) (s : Arrays) :
    ∃ s', insert n inc s i = some s' ∧ s'.pairs = sift key inc (s.pairs i) i i s.pairs := by
  obtain ⟨j, t, hshift, hj, hsift⟩ := shiftUp_eq hinc (s.a i) (s.b i) (le_refl i) hi hn s
  have hmem : 1 ≤ i ∧ i ≤ n := by omega
  refine ⟨⟨Function.update t.a j (s.a i), Function.update t.b j (s.b i)⟩, ?_, ?_⟩
  · simp only [insert, load_of_mem hmem, store_of_mem hj, hshift, Option.bind_eq_bind,
      Option.bind_some, Option.pure_def]
  · rw [pairs_update, hsift, Arrays.pairs_apply]

/-- **A pass** uses no index outside and is the pass of the library on the pairs. -/
theorem pass_eq {n inc : ℕ} (hinc : 0 < inc) (s : Arrays) :
    ∃ s', pass n inc s = some s' ∧ s'.pairs = gapPass key inc n s.pairs := by
  have hfold : ∀ (is : List ℕ) (s : Arrays), (∀ i ∈ is, inc < i ∧ i ≤ n) →
      ∃ s', is.foldlM (insert n inc) s = some s' ∧
        s'.pairs = is.foldl (fun a i => sift key inc (a i) i i a) s.pairs := by
    intro is
    induction is with
    | nil => exact fun s _ => ⟨s, rfl, rfl⟩
    | cons i is ih =>
        intro s his
        obtain ⟨hi, hn⟩ := his i List.mem_cons_self
        obtain ⟨t, ht, hpairs⟩ := insert_eq hinc hi hn s
        obtain ⟨s', hs', hpairs'⟩ := ih t fun k hk => his k (List.mem_cons_of_mem i hk)
        refine ⟨s', ?_, ?_⟩
        · rw [List.foldlM_cons, ht]
          exact hs'
        · rw [List.foldl_cons, hpairs', hpairs]
  refine hfold _ s fun i hi => ?_
  rw [List.mem_range'_1] at hi
  omega

/-- A pass over elements that are in order with those a gap below them moves nothing. -/
theorem pass_of_ordered {n inc : ℕ} {s : Arrays}
    (h : ∀ i, inc < i → i ≤ n → (s.a i).slt (s.a (i - inc)) = false) : pass n inc s = some s := by
  have hinsert : ∀ i, inc < i ∧ i ≤ n → insert n inc s i = some s := by
    rintro i ⟨hi, hn⟩
    have hbelow : 1 ≤ i - inc ∧ i - inc ≤ n := by omega
    have hhere : 1 ≤ i ∧ i ≤ n := by omega
    have hslt := h i hi hn
    obtain ⟨k, rfl⟩ := Nat.exists_eq_add_of_le' hhere.1
    simp only [insert, shiftUp, load_of_mem hhere, load_of_mem hbelow, store_of_mem hhere,
      Option.bind_eq_bind, Option.bind_some, Option.pure_def, hslt, Bool.false_eq_true, if_false,
      Function.update_eq_self]
  have hfold : ∀ is : List ℕ, (∀ i ∈ is, inc < i ∧ i ≤ n) →
      is.foldlM (insert n inc) s = some s := by
    intro is
    induction is with
    | nil => exact fun _ => rfl
    | cons i is ih =>
        intro his
        rw [List.foldlM_cons, hinsert i (his i List.mem_cons_self)]
        exact ih fun k hk => his k (List.mem_cons_of_mem i hk)
  refine hfold _ fun i hi => ?_
  rw [List.mem_range'_1] at hi
  omega

/-- With gap zero every element is compared with itself. -/
theorem pass_zero (n : ℕ) (s : Arrays) : pass n 0 s = some s :=
  pass_of_ordered fun i _ _ => by
    rw [Nat.sub_zero, BitVec.slt_eq_decide]
    exact decide_eq_false (lt_irrefl _)

/-! ## The second loop

The gaps are the leading digits of the first one to base three, one digit fewer each time.  When
the first digit is one they end with one, and when it is two they end with two and zero. -/

theorem passes_sorted {n m inc : ℕ} (hlow : 3 ^ (m + 1) ≤ inc) (hhigh : inc < 2 * 3 ^ (m + 1))
    (s : Arrays) :
    ∃ s', passes n inc s = some s' ∧ Permutes n s.pairs s'.pairs ∧ Sorted key n s'.pairs := by
  induction m generalizing inc s with
  | zero =>
      have hone : inc / 3 = 1 := by omega
      obtain ⟨t, ht, hpairs⟩ := pass_eq Nat.one_pos (n := n) s
      refine ⟨t, ?_, ?_, ?_⟩
      · rw [passes, hone, ht]
        rfl
      · exact hpairs ▸ gapPass_perm Nat.one_pos n s.pairs
      · exact hpairs ▸ gapPass_one_sorted n s.pairs
  | succ m ih =>
      have hpow := Nat.pow_succ 3 (m + 1)
      have hpos : 0 < 3 ^ m := Nat.pow_pos (by omega)
      have hthree := Nat.pow_succ 3 m
      obtain ⟨t, ht, hpairs⟩ := pass_eq (show 0 < inc / 3 by omega) (n := n) s
      obtain ⟨s', hs', hperm, hsorted⟩ := @ih (inc / 3) (by omega) (by omega) t
      refine ⟨s', ?_, ?_, hsorted⟩
      · rw [passes, ht, Option.bind_eq_bind, Option.bind_some, if_pos (by omega), hs']
      · exact (hpairs ▸ gapPass_perm (by omega) n s.pairs).trans hperm

theorem passes_stays {n m inc : ℕ} (hlow : 2 * 3 ^ m ≤ inc) (hhigh : inc < 3 ^ (m + 1))
    {s : Arrays} (hstays : ∀ g, 2 ≤ g → pass n g s = some s) : passes n inc s = some s := by
  induction m generalizing inc with
  | zero =>
      have hzero : inc / 3 = 0 := by omega
      rw [passes, hzero, pass_zero]
      rfl
  | succ m ih =>
      have hpow := Nat.pow_succ 3 (m + 1)
      have hthree := Nat.pow_succ 3 m
      have hpos : 0 < 3 ^ m := Nat.pow_pos (by omega)
      rw [passes, hstays _ (by omega), Option.bind_eq_bind, Option.bind_some, if_pos (by omega)]
      exact ih (by omega) (by omega)

/-! ## The first loop -/

theorem two_mul_gap (k : ℕ) : 2 * gap k + 1 = 3 ^ (k + 1) := by
  induction k with
  | zero => rfl
  | succ k ih =>
      have hpow := Nat.pow_succ 3 (k + 1)
      rw [gap]
      omega

theorem gap_strictMono : StrictMono gap := strictMono_nat_of_lt_succ fun k => by
  rw [gap]
  omega

/-- Gap number `k` as the machine has it. -/
def gapWord (k : ℕ) : Word := BitVec.ofNat 32 (gap k)

theorem gapWord_succ (k : ℕ) : gapWord k * 3 + 1 = gapWord (k + 1) := by
  unfold gapWord
  rw [gap, BitVec.ofNat_add, BitVec.ofNat_mul]
  rfl

theorem toNat_gapWord (k : ℕ) : (gapWord k).toNat = gap k % 2 ^ 32 := BitVec.toNat_ofNat ..

section FirstGap

variable {continues : Word → Bool}

/-- The loop ends with the first gap that does not make it continue. -/
theorem firstGap_eq_some {fuel k : ℕ} {x : Word}
    (h : firstGap continues fuel (gapWord k) = some x) :
    ∃ m, k < m ∧ x = gapWord m ∧ continues (gapWord m) = false ∧
      ∀ i, k < i → i < m → continues (gapWord i) = true := by
  induction fuel generalizing k with
  | zero => exact absurd h (by simp [firstGap])
  | succ fuel ih =>
      rw [firstGap] at h
      rw [gapWord_succ] at h
      by_cases hcont : continues (gapWord (k + 1)) = true
      · rw [if_pos hcont] at h
        obtain ⟨m, hm, hx, hstop, hbefore⟩ := ih h
        refine ⟨m, by omega, hx, hstop, fun i hi him => ?_⟩
        rcases eq_or_ne i (k + 1) with rfl | hne
        · exact hcont
        · exact hbefore i (by omega) him
      · rw [if_neg hcont, Option.some_inj] at h
        exact ⟨k + 1, by omega, h.symm, Bool.eq_false_iff.2 hcont, fun i hi him => by omega⟩

/-- The loop ends when some gap does not make it continue. -/
theorem exists_firstGap (d : ℕ) {k : ℕ} (h : continues (gapWord (k + d + 1)) = false) :
    ∃ x, firstGap continues (d + 1) (gapWord k) = some x := by
  induction d generalizing k with
  | zero =>
      refine ⟨gapWord (k + 1), ?_⟩
      rw [firstGap]
      rw [gapWord_succ, if_neg (Bool.eq_false_iff.1 h)]
  | succ d ih =>
      rw [firstGap]
      rw [gapWord_succ]
      by_cases hcont : continues (gapWord (k + 1)) = true
      · rw [if_pos hcont]
        exact ih (by rwa [show k + 1 + d + 1 = k + (d + 1) + 1 by omega])
      · exact ⟨_, if_neg hcont⟩

end FirstGap

/-! ## The result -/

/-- The first array is in order, and the two arrays are permuted alike. -/
structure SortedTogether (n : ℕ) (s s' : Arrays) : Prop where
  sorted : ∀ i j, 1 ≤ i → i ≤ j → j ≤ n → (s'.a i).toInt ≤ (s'.a j).toInt
  permuted : ∃ σ : Equiv.Perm ℕ, (∀ i, 1 ≤ σ i ∧ σ i ≤ n ↔ 1 ≤ i ∧ i ≤ n) ∧
    ∀ i, s'.a i = s.a (σ i) ∧ s'.b i = s.b (σ i)

/-- For every pair of arrays the routine returns, without having used an index outside, and has
sorted them together. -/
def SortsTogether (c : Copy) (n : ℕ) : Prop :=
  ∀ s, ∃ fuel s', c.shellSort fuel n s = some s' ∧ SortedTogether n s s'

theorem sortedTogether_of {n : ℕ} {s s' : Arrays} (hperm : Permutes n s.pairs s'.pairs)
    (hsorted : Sorted key n s'.pairs) : SortedTogether n s s' where
  sorted i j hi hij hj := key_le_key.1 (hsorted i j hi hij hj)
  permuted := by
    obtain ⟨σ, hσ, heq⟩ := hperm
    refine ⟨σ, hσ, fun i => ?_⟩
    exact ⟨congrArg Prod.fst (congrFun heq i), congrArg Prod.snd (congrFun heq i)⟩

/-- A copy sorts when its first loop ends and the gap it ends with has the leading digit one. -/
theorem sortsTogether_of {c : Copy} {n d : ℕ} (hstop : c.continues n (gapWord (d + 1)) = false)
    (hdigit : ∀ m, 0 < m → c.continues n (gapWord m) = false →
      (∀ i, 0 < i → i < m → c.continues n (gapWord i) = true) →
      ∃ k, 3 ^ (k + 1) ≤ (gapWord m).toNat ∧ (gapWord m).toNat < 2 * 3 ^ (k + 1)) :
    SortsTogether c n := by
  intro s
  obtain ⟨x, hx⟩ := exists_firstGap d (k := 0) (by rwa [Nat.zero_add])
  obtain ⟨m, hm, rfl, hmstop, hbefore⟩ := firstGap_eq_some hx
  obtain ⟨k, hlow, hhigh⟩ := hdigit m hm hmstop hbefore
  obtain ⟨s', hs', hperm, hsorted⟩ := passes_sorted (n := n) hlow hhigh s
  refine ⟨d + 1, s', ?_, sortedTogether_of hperm hsorted⟩
  show (firstGap (c.continues n) (d + 1) (gapWord 0) >>= fun inc => passes n inc.toNat s) = some s'
  rw [hx]
  exact hs'

/-- Number 19 is the last gap to fit 31 bits. -/
theorem gap_nineteen : gap 19 = 1743392200 := rfl

theorem toNat_gapWord_of_le {k : ℕ} (hk : k ≤ 19) : (gapWord k).toNat = gap k := by
  have hle := gap_strictMono.monotone hk
  rw [gap_nineteen] at hle
  rw [toNat_gapWord, Nat.mod_eq_of_lt (by omega)]

theorem toInt_gapWord_of_le {k : ℕ} (hk : k ≤ 19) : (gapWord k).toInt = gap k := by
  have hle := gap_strictMono.monotone hk
  have heq := toNat_gapWord_of_le hk
  rw [gap_nineteen] at hle
  rw [BitVec.toInt_eq_toNat_of_lt (by omega), heq]

/-- A gap that has not wrapped is a string of ones to base three. -/
theorem digit_gapWord {m : ℕ} (hm : 0 < m) (hk : m ≤ 19) :
    ∃ k, 3 ^ (k + 1) ≤ (gapWord m).toNat ∧ (gapWord m).toNat < 2 * 3 ^ (k + 1) := by
  obtain ⟨k, rfl⟩ := Nat.exists_eq_add_of_le' (show 1 ≤ m from hm)
  have htwo := two_mul_gap (k + 1)
  have hpow := Nat.pow_succ 3 (k + 1)
  refine ⟨k, ?_⟩
  rw [toNat_gapWord_of_le hk]
  omega

/-! ### The unsigned gap -/

theorem sortsTogether_etSystem {n : ℕ} (hn : n < 1743392200) : SortsTogether .etSystem n := by
  have hstop : unsignedLe n (gapWord 19) = false := by
    rw [unsignedLe, toNat_gapWord_of_le (le_refl 19), gap_nineteen]
    exact decide_eq_false (by omega)
  refine sortsTogether_of (d := 18) hstop fun m hm _ hbefore => digit_gapWord hm ?_
  by_contra hlate
  exact Bool.false_ne_true (hstop.symm.trans (hbefore 19 (by omega) (by omega)))

/-- The gap after the next one is past 32 bits, wraps to a value below `n`, and leads to this. -/
theorem toNat_gapWord_twentyOne : (gapWord 21).toNat = 2805627916 := by
  rw [toNat_gapWord]
  rfl

/-- The loop continues up to gap number 20. -/
theorem unsignedLe_gapWord {n i : ℕ} (hn : 1743392200 ≤ n) (hi : i ≤ 20) :
    unsignedLe n (gapWord i) = true := by
  refine decide_eq_true ?_
  rcases Nat.lt_or_ge 19 i with hlt | hle
  · obtain rfl : i = 20 := by omega
    have htwenty : (gapWord 20).toNat = 935209305 := by
      rw [toNat_gapWord]
      rfl
    omega
  · have hmono := gap_strictMono.monotone hle
    rw [gap_nineteen] at hmono
    rw [toNat_gapWord_of_le hle]
    omega

/-- Out of order at the first two indexes, and nowhere else. -/
def swapped : Arrays where
  a i := if i = 1 then 1 else if i = 2 then 0 else 2
  b _ := 0

theorem pass_swapped {n g : ℕ} (hg : 2 ≤ g) : pass n g swapped = some swapped := by
  refine pass_of_ordered fun i hi _ => ?_
  have htop : swapped.a i = 2 := by
    show (if i = 1 then (1 : Word) else if i = 2 then 0 else 2) = 2
    rw [if_neg (by omega), if_neg (by omega)]
  rw [htop]
  show (2 : Word).slt (if i - g = 1 then 1 else if i - g = 2 then 0 else 2) = false
  split
  · rfl
  · split <;> rfl

theorem not_sortsTogether_etSystem {n : ℕ} (hn : 1743392200 ≤ n) (hint : n < 2 ^ 31) :
    ¬SortsTogether .etSystem n := by
  intro h
  obtain ⟨fuel, s', hrun, hsorted⟩ := h swapped
  obtain ⟨x, hx, hpasses⟩ : ∃ x, firstGap (unsignedLe n) fuel (gapWord 0) = some x ∧
      passes n x.toNat swapped = some s' := Option.bind_eq_some_iff.1 hrun
  obtain ⟨m, hm, rfl, hstop, hbefore⟩ := firstGap_eq_some hx
  have htwentyOne : unsignedLe n (gapWord 21) = false := by
    rw [unsignedLe, toNat_gapWord_twentyOne]
    exact decide_eq_false (by omega)
  obtain rfl : m = 21 := by
    rcases Nat.lt_trichotomy m 21 with hlt | rfl | hgt
    · exact absurd (unsignedLe_gapWord hn (by omega)) (Bool.eq_false_iff.1 hstop)
    · rfl
    · exact absurd (hbefore 21 (by omega) hgt) (Bool.eq_false_iff.1 htwentyOne)
  rw [toNat_gapWord_twentyOne,
    passes_stays (m := 19) (by omega) (by omega) fun g hg => pass_swapped hg,
    Option.some_inj] at hpasses
  subst hpasses
  have hle := hsorted.sorted 1 2 (le_refl 1) (by omega) (by omega)
  exact absurd hle (by decide)

/-! ### The signed gap -/

/-- Squaring `1 + x` for an `x` of two to some power leaves one more power of two. -/
theorem three_pow_two_pow (b : ℕ) :
    ∃ c : ℤ, (3 : ℤ) ^ 2 ^ (b + 1) = 1 + 2 ^ (b + 3) + 2 ^ (b + 4) * c := by
  induction b with
  | zero => exact ⟨0, by norm_num⟩
  | succ b ih =>
      obtain ⟨c, hc⟩ := ih
      refine ⟨c + 2 ^ (b + 1) * (1 + 2 * c) ^ 2, ?_⟩
      rw [pow_succ 2 (b + 1), pow_mul, hc]
      ring

/-- The powers of three take every value that is three modulo eight, to any power of two. -/
theorem exists_three_pow (b : ℕ) {t : ℤ} (ht : 8 ∣ t - 3) :
    ∃ e : ℕ, (2 : ℤ) ^ (b + 3) ∣ t - 3 ^ (e + 1) := by
  induction b with
  | zero => exact ⟨0, by simpa using ht⟩
  | succ b ih =>
      obtain ⟨e, z, hz⟩ := ih
      rcases Int.even_or_odd' z with ⟨y, rfl | rfl⟩
      · exact ⟨e, y, by rw [hz]; ring⟩
      · -- the power is off by `2 ^ (b + 3)`, which this factor puts right
        obtain ⟨c, hc⟩ := three_pow_two_pow b
        obtain ⟨q, hq⟩ : Odd ((3 : ℤ) ^ (e + 1)) := (by decide : Odd (3 : ℤ)).pow
        refine ⟨e + 2 ^ (b + 1), y - q - 3 ^ (e + 1) * c, ?_⟩
        have hpow : (3 : ℤ) ^ (e + 2 ^ (b + 1) + 1) =
            3 ^ (e + 1) + 2 ^ (b + 3) * (2 * q + 1) + 2 ^ (b + 4) * (3 ^ (e + 1) * c) := by
          rw [← hq, show e + 2 ^ (b + 1) + 1 = e + 1 + 2 ^ (b + 1) by ring, pow_add, hc]
          ring
        rw [hpow, show t = 3 ^ (e + 1) + 2 ^ (b + 3) * (2 * y + 1) by rw [← hz]; ring]
        ring

theorem gap_mod_of_dvd {k : ℕ} (h : (8589934592 : ℤ) ∣ 4294967291 - (2 * (gap k : ℤ) + 1)) :
    gap k % 4294967296 = 2147483645 := by omega

/-- The largest positive gap is reached. -/
theorem exists_gap_mod : ∃ k, gap k % 4294967296 = 2147483645 := by
  have htarget : (8 : ℤ) ∣ 4294967291 - 3 := ⟨536870911, by norm_num⟩
  have hmodulus : (2 : ℤ) ^ (30 + 3) = 8589934592 := by norm_num
  obtain ⟨k, hk⟩ := exists_three_pow 30 htarget
  have hgap : (3 : ℤ) ^ (k + 1) = 2 * (gap k : ℤ) + 1 := by exact_mod_cast (two_mul_gap k).symm
  rw [hmodulus, hgap] at hk
  exact ⟨k, gap_mod_of_dvd hk⟩

theorem exists_toInt_gapWord : ∃ k, (gapWord k).toInt = 2147483645 := by
  obtain ⟨k, hk⟩ := exists_gap_mod
  have hnat : (gapWord k).toNat = 2147483645 := (toNat_gapWord k).trans hk
  refine ⟨k, ?_⟩
  rw [BitVec.toInt_eq_toNat_of_lt (by omega), hnat]
  rfl

/-- The gaps are zero and one in turn modulo four. -/
theorem gap_mod_four (k : ℕ) : gap k % 4 = 0 ∨ gap k % 4 = 1 := by
  induction k with
  | zero => exact .inr rfl
  | succ k ih =>
      rw [gap]
      omega

theorem toInt_gapWord_le (k : ℕ) : (gapWord k).toInt ≤ 2147483645 := by
  have hmod := gap_mod_four k
  have hnat := toNat_gapWord k
  rw [BitVec.toInt_eq_toNat_cond]
  split <;> omega

theorem sortsTogether_stationLocal {n : ℕ} (hn : n < 2147483645) :
    SortsTogether .stationLocal n := by
  obtain ⟨k, hk⟩ := exists_toInt_gapWord
  have hlast : signedLe n (gapWord k) = false := decide_eq_false (by omega)
  obtain ⟨d, rfl⟩ : ∃ d, k = d + 1 := by
    refine Nat.exists_eq_succ_of_ne_zero ?_
    rintro rfl
    exact absurd hk (by decide)
  refine sortsTogether_of (d := d) hlast fun m hm hstop hbefore => ?_
  rcases Nat.lt_or_ge 19 m with hlate | hsoon
  · -- the gap has wrapped: it lies between the one that did not stop the loop and `2 ^ 31`
    have hnineteen := of_decide_eq_true (hbefore 19 (by omega) hlate)
    have habove := of_decide_eq_false hstop
    rw [toInt_gapWord_of_le (le_refl 19), gap_nineteen] at hnineteen
    refine ⟨18, ?_⟩
    have hcond := BitVec.toInt_eq_toNat_cond (gapWord m)
    have hlt := (gapWord m).isLt
    split at hcond <;> omega
  · exact digit_gapWord hm hsoon

theorem not_sortsTogether_stationLocal {n : ℕ} (hn : 2147483645 ≤ n) :
    ¬SortsTogether .stationLocal n := by
  intro h
  obtain ⟨fuel, s', hrun, -⟩ := h swapped
  obtain ⟨x, hx, -⟩ : ∃ x, firstGap (signedLe n) fuel (gapWord 0) = some x ∧
      passes n x.toNat swapped = some s' := Option.bind_eq_some_iff.1 hrun
  obtain ⟨m, -, rfl, hstop, -⟩ := firstGap_eq_some hx
  have hle := toInt_gapWord_le m
  exact of_decide_eq_false hstop (by omega)

/-! ### Both -/

/-- The first length that is too much. -/
def Copy.limit : Copy → ℕ
  | etSystem => 1743392200
  | stationLocal => 2147483645

/-- **Each copy sorts the arrays together exactly for the lengths below its limit.** -/
theorem sortsTogether_iff (c : Copy) (n : ℕ) (hint : n < 2 ^ 31) :
    SortsTogether c n ↔ n < c.limit := by
  cases c with
  | etSystem =>
    exact ⟨fun h => not_le.1 fun hn => not_sortsTogether_etSystem hn hint h,
      sortsTogether_etSystem⟩
  | stationLocal =>
    exact ⟨fun h => not_le.1 fun hn => not_sortsTogether_stationLocal hn h,
      sortsTogether_stationLocal⟩

/-- **The lengths that the conductors pass.**  In C every active station has an attachment, and there
are at most `ET_ATTACHMENTS_MAX` of them.  In Java the arrays have one element more than there are
stations at most, and no array has more than `2 ^ 31 - 3`. -/
def Copy.Passed : Copy → ℕ → Prop
  | etSystem, n => n ≤ 100
  | stationLocal, n => n + 1 ≤ 2147483645

end ShellSort

end EventTransfer
