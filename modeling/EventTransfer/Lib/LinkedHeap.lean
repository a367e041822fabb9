import Mathlib

/-!
# Singly linked lists in a heap

A heap is a function `next : ι → Option ι` giving every node its link.  A list in
it is described by a header — the first and the last node — and by the nodes met
on the way.  The link of the *last* node is never looked at: whatever an earlier
use of the node left there stays there.

* `Linked next xs` — every node of `xs` links to the one after it.
* `Spans next first last xs` — the header `first`, `last` describes `xs`.
* `follow next k p` — `k` links taken from `p`.
* `walkTo next last n p` — the nodes met from `p` until `last`, within `n` nodes.
* `linkUp xs next` — the heap after stringing the nodes of `xs` together.
-/

namespace LinkedHeap

universe u

variable {ι : Type u}

/-- Every node of `xs` links to the one after it; nothing is said about the link
of the last node. -/
def Linked (next : ι → Option ι) (xs : List ι) : Prop :=
  xs.IsChain fun a b => next a = some b

@[simp] theorem linked_nil (next : ι → Option ι) : Linked next [] := List.isChain_nil

@[simp] theorem linked_singleton (next : ι → Option ι) (a : ι) : Linked next [a] :=
  List.isChain_singleton a

@[simp] theorem linked_cons_cons (next : ι → Option ι) (a b : ι) (xs : List ι) :
    Linked next (a :: b :: xs) ↔ next a = some b ∧ Linked next (b :: xs) :=
  List.isChain_cons_cons

theorem linked_append {next : ι → Option ι} {xs ys : List ι} :
    Linked next (xs ++ ys) ↔ Linked next xs ∧ Linked next ys ∧
      ∀ a ∈ xs.getLast?, ∀ b ∈ ys.head?, next a = some b :=
  List.isChain_append

/-- A list stays linked in a heap that agrees on all of its nodes but the last. -/
theorem Linked.congr_dropLast {next next' : ι → Option ι} {xs : List ι}
    (h : Linked next xs) (agree : ∀ a ∈ xs.dropLast, next' a = next a) :
    Linked next' xs := by
  induction xs with
  | nil => simp
  | cons a xs ih =>
      cases xs with
      | nil => simp
      | cons b xs =>
          rw [linked_cons_cons] at h ⊢
          rw [List.dropLast_cons_of_ne_nil (List.cons_ne_nil b xs)] at agree
          exact ⟨(agree a (by simp)).trans h.1,
            ih h.2 fun c hc => agree c (List.mem_cons_of_mem _ hc)⟩

/-- **Frame.**  A list stays linked in a heap that agrees on its nodes. -/
theorem Linked.congr {next next' : ι → Option ι} {xs : List ι} (h : Linked next xs)
    (agree : ∀ a ∈ xs, next' a = next a) : Linked next' xs :=
  h.congr_dropLast fun a ha => agree a (List.mem_of_mem_dropLast ha)

/-- Two linked lists from the same node follow the same links. -/
theorem Linked.prefix_of_length_le {next : ι → Option ι} :
    ∀ {xs ys : List ι}, Linked next xs → Linked next ys → xs.head? = ys.head? →
      xs.length ≤ ys.length → xs <+: ys
  | [], _, _, _, _, _ => List.nil_prefix
  | a :: xs, ys, hx, hy, hh, hl => by
      cases ys with
      | nil => simp at hh
      | cons b ys =>
          obtain rfl : a = b := by simpa using hh
          rw [List.cons_prefix_cons]
          refine ⟨rfl, ?_⟩
          cases xs with
          | nil => exact List.nil_prefix
          | cons c xs =>
              cases ys with
              | nil => simp at hl
              | cons d ys =>
                  rw [linked_cons_cons] at hx hy
                  have hcd : c = d := Option.some.inj (hx.1.symm.trans hy.1)
                  exact hx.2.prefix_of_length_le hy.2 (by simp [hcd]) (by simpa using hl)

/-! ### Following links -/

/-- `k` links taken from `p`. -/
def follow (next : ι → Option ι) : ℕ → Option ι → Option ι
  | 0, p => p
  | k + 1, p => follow next k (p.bind next)

/-- From the head of a linked list `k` links lead to its node number `k`. -/
theorem Linked.follow_eq {next : ι → Option ι} :
    ∀ {k : ℕ} {xs : List ι}, Linked next xs → k < xs.length →
      follow next k xs.head? = xs[k]?
  | _, [], _, hk => by simp at hk
  | 0, a :: xs, _, _ => by simp [follow]
  | k + 1, a :: xs, h, hk => by
      cases xs with
      | nil => simp at hk
      | cons b xs =>
          rw [linked_cons_cons] at h
          have := h.2.follow_eq (k := k) (by simpa using hk)
          simpa [follow, h.1] using this

/-- The nodes met from `p` until the node `last`, within `n` nodes; `none` when a
null link is met or the bound is exceeded. -/
def walkTo [DecidableEq ι] (next : ι → Option ι) (last : Option ι) :
    ℕ → Option ι → Option (List ι)
  | 0, _ => none
  | _ + 1, none => none
  | n + 1, some a =>
      if some a = last then some [a] else (walkTo next last n (next a)).map (a :: ·)

variable [DecidableEq ι]

/-! ### Headers -/

/-- **The header `first`, `last` describes the list `xs`.**  An empty list puts no
condition on the header: both pointers may be left over from earlier use. -/
structure Spans (next : ι → Option ι) (first last : Option ι) (xs : List ι) : Prop where
  linked : Linked next xs
  nodup : xs.Nodup
  first_eq : xs ≠ [] → first = xs.head?
  last_eq : xs ≠ [] → last = xs.getLast?

namespace Spans

variable {next next' : ι → Option ι} {first last : Option ι} {xs : List ι}

omit [DecidableEq ι] in
theorem nil (next : ι → Option ι) (first last : Option ι) : Spans next first last [] :=
  ⟨by simp, by simp, by simp, by simp⟩

omit [DecidableEq ι] in
theorem singleton (next : ι → Option ι) (a : ι) : Spans next (some a) (some a) [a] :=
  ⟨by simp, by simp, by simp, by simp⟩

omit [DecidableEq ι] in
/-- **Frame**: links outside the list may change. -/
theorem congr (h : Spans next first last xs) (agree : ∀ a ∈ xs, next' a = next a) :
    Spans next' first last xs :=
  ⟨h.linked.congr agree, h.nodup, h.first_eq, h.last_eq⟩

omit [DecidableEq ι] in
/-- The link of the last node may change too. -/
theorem congr_dropLast (h : Spans next first last xs)
    (agree : ∀ a ∈ xs.dropLast, next' a = next a) : Spans next' first last xs :=
  ⟨h.linked.congr_dropLast agree, h.nodup, h.first_eq, h.last_eq⟩

/-- A walk along a list meets exactly its nodes. -/
theorem walkTo_eq (h : Spans next first last xs) (hne : xs ≠ []) {n : ℕ}
    (hn : xs.length ≤ n) : walkTo next last n first = some xs := by
  obtain ⟨hl, hd, hf, ht⟩ := h
  rw [hf hne, ht hne]
  clear hf ht
  induction xs generalizing n with
  | nil => exact absurd rfl hne
  | cons a xs ih =>
      obtain ⟨m, rfl⟩ : ∃ m, n = m + 1 := ⟨n - 1, by simp at hn; omega⟩
      cases xs with
      | nil => simp [walkTo]
      | cons b xs =>
          rw [linked_cons_cons] at hl
          have hlast : (a :: b :: xs).getLast? = (b :: xs).getLast? := by simp
          have hne' : ¬ some a = (b :: xs).getLast? := by
            intro hc
            exact (List.nodup_cons.mp hd).1 (List.mem_of_getLast? hc.symm)
          have := ih (List.cons_ne_nil _ _) (n := m)
            (by simp only [List.length_cons] at hn ⊢; omega) hl.2 (List.nodup_cons.mp hd).2
          simp only [List.head?_cons] at this
          rw [hlast, List.head?_cons, walkTo, if_neg hne', hl.1, this]
          simp

/-- **Append one node**: the old last node is linked to it. -/
theorem push_back {b e : ι} {ys : List ι} (h : Spans next first last (ys ++ [b]))
    (he : e ∉ ys ++ [b]) :
    Spans (Function.update next b (some e)) first (some e) (ys ++ [b] ++ [e]) := by
  refine ⟨?_, ?_, ?_, by simp⟩
  · rw [linked_append]
    refine ⟨h.linked.congr_dropLast fun a ha => ?_, by simp, by simp⟩
    have hab : a ≠ b := by
      rintro rfl
      rw [List.dropLast_concat] at ha
      exact (List.nodup_append.mp h.nodup).2.2 a ha a (by simp) rfl
    exact Function.update_of_ne hab _ _
  · exact List.nodup_append.mpr ⟨h.nodup, by simp, fun a ha c hc => by
      rintro rfl; simp at hc; exact he (hc ▸ ha)⟩
  · intro _
    rw [h.first_eq (by simp)]
    cases ys <;> simp

/-- **Prepend one node**: it is linked to the old first node. -/
theorem push_front {e : ι} (h : Spans next first last xs) (hne : xs ≠ []) (he : e ∉ xs) :
    Spans (Function.update next e first) (some e) last (e :: xs) := by
  have hl : Linked (Function.update next e first) xs :=
    h.linked.congr fun a ha => Function.update_of_ne (by rintro rfl; exact he ha) _ _
  refine ⟨?_, List.nodup_cons.mpr ⟨he, h.nodup⟩, by simp, ?_⟩
  · cases xs with
    | nil => exact absurd rfl hne
    | cons a xs => simpa [h.first_eq] using hl
  · intro _
    rw [h.last_eq hne]
    cases xs with
    | nil => exact absurd rfl hne
    | cons a xs => simp

/-- **Insert one node inside**: it takes over the link of `a`, and `a` is linked to
it. -/
theorem insert_after {a e : ι} {ys zs : List ι}
    (h : Spans next first last (ys ++ a :: zs)) (hz : zs ≠ [])
    (he : e ∉ ys ++ a :: zs) :
    Spans (Function.update (Function.update next e (next a)) a (some e)) first last
      (ys ++ a :: e :: zs) := by
  obtain ⟨z, zs, rfl⟩ := List.exists_cons_of_ne_nil hz
  simp only [List.mem_append, List.mem_cons, not_or] at he
  obtain ⟨hey, hea, hez, hezs⟩ := he
  have hd := h.nodup
  simp only [List.nodup_append, List.nodup_cons, List.mem_cons, not_or] at hd
  obtain ⟨hdy, ⟨⟨haz, hazs⟩, hdz, hdzs⟩, hdis⟩ := hd
  set next₁ := Function.update (Function.update next e (next a)) a (some e) with hnext
  have agree : ∀ c, c ≠ a → c ≠ e → next₁ c = next c := by
    intro c hca hce
    rw [hnext, Function.update_of_ne hca, Function.update_of_ne hce]
  have hl := h.linked
  rw [linked_append, linked_cons_cons] at hl
  refine ⟨?_, ?_, ?_, ?_⟩
  · rw [linked_append, linked_cons_cons, linked_cons_cons]
    refine ⟨hl.1.congr fun c hc => agree c ?_ ?_, ⟨by simp [hnext], ?_, ?_⟩, ?_⟩
    · rintro rfl; exact hdis c hc c (by simp) rfl
    · rintro rfl; exact hey hc
    · rw [hnext, Function.update_of_ne hea, Function.update_self, hl.2.1.1]
    · refine hl.2.1.2.congr fun c hc => agree c ?_ ?_
      · rintro rfl; rcases List.mem_cons.mp hc with rfl | hc
        · exact haz rfl
        · exact hazs hc
      · rintro rfl; rcases List.mem_cons.mp hc with rfl | hc
        · exact hez rfl
        · exact hezs hc
    · intro c hc b hb
      have hcy := List.mem_of_getLast? hc
      rw [agree c (by rintro rfl; exact hdis c hcy c (by simp) rfl)
        (by rintro rfl; exact hey hcy)]
      exact hl.2.2 c hc b (by simpa using hb)
  · simp only [List.nodup_append, List.nodup_cons, List.mem_cons, not_or]
    refine ⟨hdy, ⟨⟨fun h => hea h.symm, haz, hazs⟩, ⟨hez, hezs⟩, hdz, hdzs⟩, ?_⟩
    intro c hc d hd
    rcases hd with rfl | rfl | rfl | hd
    · exact hdis c hc _ (by simp)
    · rintro rfl; exact hey hc
    · exact hdis c hc _ (by simp)
    · exact hdis c hc _ (by simp [hd])
  · intro _
    rw [h.first_eq (by simp)]
    cases ys <;> simp
  · intro _
    rw [h.last_eq (by simp)]
    simp [List.getLast?_append, List.getLast?_cons_cons]

omit [DecidableEq ι] in
/-- **Append a list**: the old last node is linked to its first node. -/
theorem append {ys : List ι} (h : Spans next first last xs) (hxs : xs ≠ [])
    (hy : Linked next' ys) (hys : ys ≠ []) (hd : (xs ++ ys).Nodup)
    (agree : ∀ a ∈ xs.dropLast, next' a = next a)
    (link : ∀ a ∈ xs.getLast?, next' a = ys.head?) :
    Spans next' first ys.getLast? (xs ++ ys) := by
  refine ⟨linked_append.mpr ⟨h.linked.congr_dropLast agree, hy, fun a ha b hb => ?_⟩, hd,
    fun _ => ?_, fun _ => ?_⟩
  · rw [link a ha]
    exact hb
  · rw [List.head?_append_of_ne_nil _ hxs]
    exact h.first_eq hxs
  · rw [List.getLast?_append_of_ne_nil _ hys]

end Spans

/-! ### Stringing nodes together -/

/-- The heap after linking every node of the list to the following one. -/
def linkUp : List ι → (ι → Option ι) → ι → Option ι
  | a :: b :: xs, next => linkUp (b :: xs) (Function.update next a (some b))
  | _, next => next

theorem linkUp_of_notMem {a : ι} :
    ∀ {xs : List ι} {next : ι → Option ι}, a ∉ xs.dropLast → linkUp xs next a = next a
  | [], _, _ => rfl
  | [_], _, _ => rfl
  | b :: c :: xs, next, h => by
      rw [List.dropLast_cons_of_ne_nil (List.cons_ne_nil c xs), List.mem_cons, not_or] at h
      rw [linkUp, linkUp_of_notMem h.2, Function.update_of_ne h.1]

theorem linked_linkUp :
    ∀ {xs : List ι} {next : ι → Option ι}, xs.Nodup → Linked (linkUp xs next) xs
  | [], _, _ => by simp
  | [_], _, _ => by simp
  | a :: b :: xs, next, h => by
      rw [linked_cons_cons, linkUp]
      refine ⟨?_, linked_linkUp (List.nodup_cons.mp h).2⟩
      rw [linkUp_of_notMem, Function.update_self]
      exact fun hm => (List.nodup_cons.mp h).1 (List.mem_of_mem_dropLast hm)

/-! ### Joining lists -/

/-- Storing a link in the last node changes no list. -/
theorem Linked.update {next : ι → Option ι} {xs : List ι} {a : ι} (h : Linked next xs)
    (ha : a ∉ xs.dropLast) (v : Option ι) : Linked (Function.update next a v) xs :=
  h.congr_dropLast fun _ hc => Function.update_of_ne (ne_of_mem_of_not_mem hc ha) _ _

theorem Linked.linkUp {next : ι → Option ι} {xs ys : List ι} (h : Linked next xs)
    (hd : ∀ a ∈ xs, a ∉ ys) : Linked (linkUp ys next) xs :=
  h.congr fun a ha => linkUp_of_notMem fun hm => hd a ha (List.mem_of_mem_dropLast hm)

omit [DecidableEq ι] in
theorem notMem_dropLast_of_nodup {xs : List ι} {a : ι} (hd : xs.Nodup) (ha : xs.getLast? = some a) :
    a ∉ xs.dropLast := by
  obtain ⟨ys, rfl⟩ := List.getLast?_eq_some_iff.mp ha
  rw [List.dropLast_concat]
  exact fun hm => (List.nodup_append.mp hd).2.2 a hm a (by simp) rfl

/-- **Join two lists**: the last node of the one is linked to the first node of the
other. -/
theorem Linked.join {next : ι → Option ι} {xs ys : List ι} {a : ι} {v : Option ι}
    (hx : Linked next xs) (hy : Linked next ys) (hd : (xs ++ ys).Nodup)
    (ha : xs.getLast? = some a) (hv : v = ys.head?) :
    Linked (Function.update next a v) (xs ++ ys) := by
  have hd' := List.nodup_append.mp hd
  have hmem : a ∈ xs := List.mem_of_getLast? ha
  have hay : a ∉ ys := fun hm => hd'.2.2 a hmem a hm rfl
  rw [linked_append]
  refine ⟨hx.update (notMem_dropLast_of_nodup hd'.1 ha) v,
    hy.update (fun hm => hay (List.mem_of_mem_dropLast hm)) v, ?_⟩
  intro c hc b hb
  obtain rfl : a = c := Option.some.inj (ha.symm.trans hc)
  rw [Function.update_self, hv]
  exact hb

end LinkedHeap
