import Mathlib

/-!
# Things in lists, each in one place

A family of lists `f : κ → List α` is `Separate` when nothing is twice in a list, or in two
lists.  Things are taken out of a list, and things that are in no list are put into lists; both
keep the family separate, whatever the order of the lists is afterwards.

* `Separate.take` — a list is split into what is taken and what is left.
* `Separate.add` — each list gets the things of a second separate family.
* `Separate.put` — one list gets things.
* `separate_of_flatMap` — lists that make up a list without duplicates.
* `length_add_le` — a list of things below `n` has room, up to `n`, for others.
-/

namespace Places

universe u v

variable {κ : Type u} {α : Type v}

/-- **Nothing is in two places.** -/
structure Separate (f : κ → List α) : Prop where
  nodup : ∀ k, (f k).Nodup
  once : ∀ k l x, x ∈ f k → x ∈ f l → k = l

variable {f g h : κ → List α} {k : κ} {es xs : List α}

/-- What is left in the lists. -/
theorem mem_take [DecidableEq κ] (hperm : (es ++ xs).Perm (f k)) (hf : Separate f) (l : κ) (x : α) :
    x ∈ Function.update f k xs l ↔ x ∈ f l ∧ x ∉ es := by
  have hmem := hperm.mem_iff (a := x)
  have hnodup := hperm.nodup_iff.mpr (hf.nodup k)
  rw [List.mem_append] at hmem
  rw [List.nodup_append] at hnodup
  rcases eq_or_ne l k with rfl | hl
  · rw [Function.update_self]
    exact ⟨fun hx => ⟨hmem.mp (.inr hx), fun he => hnodup.2.2 x he x hx rfl⟩,
      fun hx => (hmem.mpr hx.1).resolve_left hx.2⟩
  · rw [Function.update_of_ne hl]
    exact ⟨fun hx => ⟨hx, fun he => hl (hf.once l k x hx (hmem.mp (.inl he)))⟩, And.left⟩

/-- **Taking things out of a list.** -/
theorem Separate.take [DecidableEq κ] (hf : Separate f) (hperm : (es ++ xs).Perm (f k)) :
    Separate (Function.update f k xs) := by
  refine ⟨fun l => ?_, fun l m x hl hm => ?_⟩
  · rcases eq_or_ne l k with rfl | hl
    · rw [Function.update_self]
      exact (hperm.nodup_iff.mpr (hf.nodup l)).sublist (List.sublist_append_right es xs)
    · rw [Function.update_of_ne hl]
      exact hf.nodup l
  · rw [mem_take hperm hf] at hl hm
    exact hf.once l m x hl.1 hm.1

/-- **Putting things into lists.** -/
theorem Separate.add (hf : Separate f) (hg : Separate g) (hnew : ∀ l m x, x ∈ g l → x ∉ f m)
    (hperm : ∀ l, (h l).Perm (f l ++ g l)) : Separate h := by
  refine ⟨fun l => ?_, fun l m x hl hm => ?_⟩
  · refine (hperm l).nodup_iff.mpr (List.nodup_append.mpr ⟨hf.nodup l, hg.nodup l, ?_⟩)
    rintro x hx y hy rfl
    exact hnew l l x hy hx
  · rw [(hperm _).mem_iff, List.mem_append] at hl hm
    rcases hl with hl | hl <;> rcases hm with hm | hm
    · exact hf.once l m x hl hm
    · exact absurd hl (hnew m l x hm)
    · exact absurd hm (hnew l m x hl)
    · exact hg.once l m x hl hm

/-- A family with things at one place only. -/
theorem separate_single [DecidableEq κ] (hes : es.Nodup) :
    Separate fun l => if l = k then es else [] := by
  refine ⟨fun l => ?_, fun l m x hl hm => ?_⟩
  · split
    · exact hes
    · exact List.nodup_nil
  · have hk : ∀ l, x ∈ (if l = k then es else []) → l = k := by
      intro l hl
      by_contra hne
      rw [if_neg hne] at hl
      exact List.not_mem_nil hl
    exact (hk l hl).trans (hk m hm).symm

/-- **Putting things into a list.** -/
theorem Separate.put [DecidableEq κ] (hf : Separate f) (hes : es.Nodup)
    (hnew : ∀ l, ∀ x ∈ es, x ∉ f l) (hperm : xs.Perm (f k ++ es)) :
    Separate (Function.update f k xs) := by
  refine hf.add (separate_single (k := k) hes) (fun l m x hx => ?_) fun l => ?_
  · split at hx
    · exact hnew m x hx
    · exact absurd hx List.not_mem_nil
  · rcases eq_or_ne l k with rfl | hl
    · rw [Function.update_self, if_pos rfl]
      exact hperm
    · rw [Function.update_of_ne hl, if_neg hl, List.append_nil]

/-- **Lists that make up a list without duplicates.** -/
theorem separate_of_flatMap {ks : List κ} (hall : (ks.flatMap f).Nodup)
    (hother : ∀ k ∉ ks, f k = []) : Separate f := by
  obtain ⟨hnodup, hdisjoint⟩ := List.nodup_flatMap.mp hall
  have hin : ∀ k x, x ∈ f k → k ∈ ks := by
    intro k x hx
    by_contra hk
    rw [hother k hk] at hx
    exact List.not_mem_nil hx
  refine ⟨fun k => ?_, fun k l x hk hl => ?_⟩
  · by_cases hk : k ∈ ks
    · exact hnodup k hk
    · rw [hother k hk]
      exact List.nodup_nil
  · by_contra hne
    have hsymm : Std.Symm (Function.onFun List.Disjoint f) := ⟨fun _ _ h => h.symm⟩
    exact hdisjoint.forall (hin k x hk) (hin l x hl) hne hk hl

/-- There is room for what is not in a list. -/
theorem length_add_le {n : ℕ} {xs es : List ℕ} (hxs : xs.Nodup) (hes : es.Nodup)
    (hnew : ∀ x ∈ es, x ∉ xs) (hlt : ∀ x ∈ xs ++ es, x < n) : xs.length + es.length ≤ n := by
  have hnodup : (xs ++ es).Nodup := by
    refine List.nodup_append.mpr ⟨hxs, hes, ?_⟩
    rintro x hx y hy rfl
    exact hnew x hy hx
  have hsub : (xs ++ es) ⊆ List.range n := fun x hx => List.mem_range.mpr (hlt x hx)
  have hle := (hnodup.subperm hsub).length_le
  rwa [List.length_append, List.length_range] at hle

end Places
