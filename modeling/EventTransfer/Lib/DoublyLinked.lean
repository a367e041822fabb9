import EventTransfer.Lib.LinkedHeap

/-!
# Doubly linked segments in a heap

`Seg next prev p xs q` says that the nodes of `xs` are linked in both directions in
this order, that the first of them points back to `p` and the last one on to `q`.
A doubly linked list with null ends is a segment from `none` to `none`.

`Fwd next xs q` is the forward half alone: what a walk along `next` sees, and all that
is left of a segment whose backward links are half changed.

The main fact is `seg_append`: a segment is cut anywhere into two segments that
point at each other.  Inserting and removing a node is cutting, moving two end
pointers (`Seg.set_last`, `Seg.set_first`) and pasting.
-/

namespace LinkedHeap

universe u

variable {ι : Type u}

/-- The nodes of `xs` are linked in both directions, from `p` to `q`. -/
def Seg (next prev : ι → Option ι) : Option ι → List ι → Option ι → Prop
  | _, [], _ => True
  | p, a :: xs, q =>
      prev a = p ∧ next a = xs.head?.or q ∧ Seg next prev (some a) xs q

variable {next prev next' prev' : ι → Option ι} {p q p' q' : Option ι} {xs ys : List ι} {a : ι}

@[simp] theorem seg_nil : Seg next prev p [] q := trivial

theorem seg_cons :
    Seg next prev p (a :: xs) q ↔
      prev a = p ∧ next a = xs.head?.or q ∧ Seg next prev (some a) xs q := Iff.rfl

@[simp] theorem seg_singleton : Seg next prev p [a] q ↔ prev a = p ∧ next a = q := by
  simp [seg_cons]

/-- **Cutting a segment.** -/
theorem seg_append :
    Seg next prev p (xs ++ ys) q ↔
      Seg next prev p xs (ys.head?.or q) ∧ Seg next prev (xs.getLast?.or p) ys q := by
  induction xs generalizing p with
  | nil => simp
  | cons a xs ih =>
      rw [List.cons_append, seg_cons, seg_cons, ih]
      have hhead : (xs ++ ys).head?.or q = xs.head?.or (ys.head?.or q) := by
        cases xs <;> simp
      have hlast : (a :: xs).getLast?.or p = xs.getLast?.or (some a) := by
        rw [List.getLast?_cons]
        cases xs.getLast? <;> rfl
      rw [hhead, hlast, and_assoc, and_assoc]

/-- **Frame**: a segment depends on the links of its own nodes. -/
theorem Seg.congr (h : Seg next prev p xs q) (hnext : ∀ a ∈ xs, next' a = next a)
    (hprev : ∀ a ∈ xs, prev' a = prev a) : Seg next' prev' p xs q := by
  induction xs generalizing p with
  | nil => trivial
  | cons a xs ih =>
      obtain ⟨h1, h2, h3⟩ := h
      refine ⟨(hprev a (by simp)).trans h1, (hnext a (by simp)).trans h2, ih h3 ?_ ?_⟩
      · exact fun b hb => hnext b (List.mem_cons_of_mem _ hb)
      · exact fun b hb => hprev b (List.mem_cons_of_mem _ hb)

/-- A segment is linked forwards. -/
theorem Seg.linked (h : Seg next prev p xs q) : Linked next xs := by
  induction xs generalizing p with
  | nil => simp
  | cons a xs ih =>
      cases xs with
      | nil => simp
      | cons b xs =>
          obtain ⟨-, h2, h3⟩ := h
          exact (linked_cons_cons _ _ _ _).mpr ⟨by simpa using h2, ih h3⟩

/-- The links of a node inside a segment. -/
theorem Seg.links (h : Seg next prev p (xs ++ a :: ys) q) :
    prev a = xs.getLast?.or p ∧ next a = ys.head?.or q := by
  rw [seg_append, seg_cons] at h
  exact ⟨h.2.1, h.2.2.1⟩

/-! ### The forward half -/

/-- The nodes of `xs` are linked forwards, and the last of them on to `q`. -/
def Fwd (next : ι → Option ι) : List ι → Option ι → Prop
  | [], _ => True
  | a :: xs, q => next a = xs.head?.or q ∧ Fwd next xs q

@[simp] theorem fwd_nil : Fwd next [] q := trivial

theorem fwd_cons : Fwd next (a :: xs) q ↔ next a = xs.head?.or q ∧ Fwd next xs q := Iff.rfl

theorem Seg.fwd (h : Seg next prev p xs q) : Fwd next xs q := by
  induction xs generalizing p with
  | nil => trivial
  | cons a xs ih => exact ⟨h.2.1, ih h.2.2⟩

/-- **Frame** for the forward half. -/
theorem Fwd.congr (h : Fwd next xs q) (hnext : ∀ a ∈ xs, next' a = next a) :
    Fwd next' xs q := by
  induction xs with
  | nil => trivial
  | cons a xs ih =>
      exact ⟨(hnext a (by simp)).trans h.1, ih h.2 fun b hb => hnext b (by simp [hb])⟩

theorem fwd_append :
    Fwd next (xs ++ ys) q ↔ Fwd next xs (ys.head?.or q) ∧ Fwd next ys q := by
  induction xs with
  | nil => simp
  | cons a xs ih =>
      have hhead : (xs ++ ys).head?.or q = xs.head?.or (ys.head?.or q) := by
        cases xs <;> simp
      rw [List.cons_append, fwd_cons, fwd_cons, ih, hhead, and_assoc]

/-- A walk to the end does not leave the list, ... -/
theorem Fwd.mem_of_next {b : ι} (h : Fwd next xs none) (ha : a ∈ xs) (hb : next a = some b) :
    b ∈ xs := by
  induction xs with
  | nil => exact absurd ha List.not_mem_nil
  | cons x xs ih =>
      obtain ⟨hx, hrest⟩ := h
      rcases List.mem_cons.mp ha with rfl | ha
      · rw [Option.or_none] at hx
        exact List.mem_cons_of_mem _ (List.mem_of_head? (hx.symm.trans hb))
      · exact List.mem_cons_of_mem _ (ih hrest ha)

/-- ... comes to an end, ... -/
theorem Fwd.exists_end (h : Fwd next xs none) (hne : xs ≠ []) : ∃ b ∈ xs, next b = none := by
  obtain ⟨ys, b, rfl⟩ := (List.eq_nil_or_concat' xs).resolve_left hne
  exact ⟨b, by simp, (fwd_append.mp h).2.1⟩

theorem Fwd.next_ne_none {b c : ι} (h : Fwd next xs (some c)) (hb : b ∈ xs) :
    next b ≠ none := by
  induction xs with
  | nil => exact absurd hb List.not_mem_nil
  | cons x xs ih =>
      rcases List.mem_cons.mp hb with rfl | hb
      · rw [h.1]
        cases xs with
        | nil => exact Option.some_ne_none _
        | cons y xs => exact Option.some_ne_none _
      · exact ih h.2 hb

/-- ... and is the only one. -/
theorem Fwd.unique (h : Fwd next (a :: xs) none) (h' : Fwd next (a :: ys) none) : xs = ys := by
  induction xs generalizing a ys with
  | nil =>
      have hend : ys.head? = none := by simpa using h'.1.symm.trans h.1
      exact (List.head?_eq_none_iff.mp hend).symm
  | cons x xs ih =>
      have hnext : ys.head? = some x := by simpa using h'.1.symm.trans h.1
      obtain ⟨rest, rfl⟩ : ∃ rest, ys = x :: rest := by
        cases ys with
        | nil => exact nomatch hnext
        | cons y rest => exact ⟨rest, by rw [Option.some.inj hnext]⟩
      rw [ih h.2 h'.2]

variable [DecidableEq ι]

/-- The forward link of the last node may be moved. -/
theorem Seg.set_last (h : Seg next prev p xs q) (hnd : xs.Nodup)
    (hnext : ∀ a ∈ xs, next' a = if xs.getLast? = some a then q' else next a)
    (hprev : ∀ a ∈ xs, prev' a = prev a) : Seg next' prev' p xs q' := by
  rcases List.eq_nil_or_concat' xs with rfl | ⟨ys, b, rfl⟩
  · trivial
  · rw [seg_append] at h ⊢
    have hlast : (ys ++ [b]).getLast? = some b := List.getLast?_concat
    rw [hlast] at hnext
    refine ⟨h.1.congr (fun a ha => ?_) fun a ha => hprev a (by simp [ha]), ?_⟩
    · have hba : b ≠ a := by
        rintro rfl
        exact (List.nodup_append.mp hnd).2.2 b ha b (by simp) rfl
      rw [hnext a (by simp [ha]), if_neg (by simpa using hba)]
    · rw [seg_singleton] at h ⊢
      exact ⟨(hprev b (by simp)).trans h.2.1, by rw [hnext b (by simp), if_pos rfl]⟩

/-- The backward link of the first node may be moved. -/
theorem Seg.set_first (h : Seg next prev p xs q) (hnd : xs.Nodup)
    (hnext : ∀ a ∈ xs, next' a = next a)
    (hprev : ∀ a ∈ xs, prev' a = if xs.head? = some a then p' else prev a) :
    Seg next' prev' p' xs q := by
  cases xs with
  | nil => trivial
  | cons b xs =>
      obtain ⟨h1, h2, h3⟩ := h
      refine ⟨by rw [hprev b (by simp), List.head?_cons, if_pos rfl], (hnext b (by simp)).trans h2,
        h3.congr (fun a ha => hnext a (by simp [ha])) fun a ha => ?_⟩
      have hba : b ≠ a := by
        rintro rfl
        exact (List.nodup_cons.mp hnd).1 ha
      rw [hprev a (by simp [ha]), if_neg (by simpa using hba)]

/-! ### Splicing -/

/-- **Inserting a node** `a` between `xs` and `ys`. -/
theorem Seg.insert (h : Seg next prev p (xs ++ ys) q) (hnd : (xs ++ ys).Nodup)
    (hnext : ∀ b ∈ xs ++ ys, next' b = if xs.getLast? = some b then some a else next b)
    (hprev : ∀ b ∈ xs ++ ys, prev' b = if ys.head? = some b then some a else prev b)
    (hanext : next' a = ys.head?.or q) (haprev : prev' a = xs.getLast?.or p) :
    Seg next' prev' p (xs ++ a :: ys) q := by
  rw [List.nodup_append] at hnd
  obtain ⟨hx, hy, hdis⟩ := hnd
  rw [seg_append] at h
  rw [seg_append, seg_cons]
  refine ⟨h.1.set_last hx ?_ ?_, haprev, hanext, h.2.set_first hy ?_ ?_⟩
  · exact fun b hb => hnext b (List.mem_append_left _ hb)
  · intro b hb
    rw [hprev b (List.mem_append_left _ hb), if_neg]
    exact fun hh => hdis b hb b (List.mem_of_head? hh) rfl
  · intro b hb
    rw [hnext b (List.mem_append_right _ hb), if_neg]
    exact fun hl => hdis b (List.mem_of_getLast? hl) b hb rfl
  · exact fun b hb => hprev b (List.mem_append_right _ hb)

/-- **Removing a node** `a` between `xs` and `ys`. -/
theorem Seg.remove (h : Seg next prev p (xs ++ a :: ys) q) (hnd : (xs ++ a :: ys).Nodup)
    (hnext : ∀ b ∈ xs ++ ys, next' b = if xs.getLast? = some b then ys.head?.or q else next b)
    (hprev : ∀ b ∈ xs ++ ys, prev' b = if ys.head? = some b then xs.getLast?.or p else prev b) :
    Seg next' prev' p (xs ++ ys) q := by
  rw [List.nodup_append, List.nodup_cons] at hnd
  obtain ⟨hx, ⟨-, hy⟩, hdis⟩ := hnd
  rw [seg_append, seg_cons] at h
  rw [seg_append]
  refine ⟨h.1.set_last hx ?_ ?_, h.2.2.2.set_first hy ?_ ?_⟩
  · exact fun b hb => hnext b (List.mem_append_left _ hb)
  · intro b hb
    rw [hprev b (List.mem_append_left _ hb), if_neg]
    exact fun hh => hdis b hb b (List.mem_cons_of_mem _ (List.mem_of_head? hh)) rfl
  · intro b hb
    rw [hnext b (List.mem_append_right _ hb), if_neg]
    exact fun hl => hdis b (List.mem_of_getLast? hl) b (List.mem_cons_of_mem _ hb) rfl
  · exact fun b hb => hprev b (List.mem_append_right _ hb)

/-- **Replacing a node** `a` by `c`. -/
theorem Seg.replace {c : ι} (h : Seg next prev p (xs ++ a :: ys) q)
    (hnd : (xs ++ a :: ys).Nodup)
    (hnext : ∀ b ∈ xs ++ ys, next' b = if xs.getLast? = some b then some c else next b)
    (hprev : ∀ b ∈ xs ++ ys, prev' b = if ys.head? = some b then some c else prev b)
    (hcnext : next' c = ys.head?.or q) (hcprev : prev' c = xs.getLast?.or p) :
    Seg next' prev' p (xs ++ c :: ys) q := by
  rw [List.nodup_append, List.nodup_cons] at hnd
  obtain ⟨hx, ⟨-, hy⟩, hdis⟩ := hnd
  rw [seg_append, seg_cons] at h
  rw [seg_append, seg_cons]
  refine ⟨h.1.set_last hx ?_ ?_, hcprev, hcnext, h.2.2.2.set_first hy ?_ ?_⟩
  · exact fun b hb => hnext b (List.mem_append_left _ hb)
  · intro b hb
    rw [hprev b (List.mem_append_left _ hb), if_neg]
    exact fun hh => hdis b hb b (List.mem_cons_of_mem _ (List.mem_of_head? hh)) rfl
  · intro b hb
    rw [hnext b (List.mem_append_right _ hb), if_neg]
    exact fun hl => hdis b (List.mem_of_getLast? hl) b (List.mem_cons_of_mem _ hb) rfl
  · exact fun b hb => hprev b (List.mem_append_right _ hb)

end LinkedHeap
