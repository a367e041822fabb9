import Mathlib

/-!
# Regions of a memory

`layOut start sizes` puts regions of the given sizes one behind the other.  They are apart from
each other (`layOut_apart`), and between `start` and the end of the last one
(`layOut_within`).
-/

/-- A region: the places from `start` on, `size` of them. -/
@[ext]
structure Region where
  start : ℕ
  size : ℕ

namespace Region

variable {r s : Region} {start : ℕ} {sizes : List ℕ}

/-- The first place behind a region. -/
def stop (r : Region) : ℕ := r.start + r.size

/-- The places of a region. -/
def places (r : Region) : Set ℕ := Set.Ico r.start r.stop

/-- **Apart**: no place is in both. -/
def Apart (r s : Region) : Prop := Disjoint r.places s.places

/-- **Within** another region, with both ends. -/
structure Within (r s : Region) : Prop where
  start : s.start ≤ r.start
  stop : r.stop ≤ s.stop

theorem apart_of_stop_le (h : r.stop ≤ s.start) : r.Apart s :=
  Set.disjoint_left.mpr fun _ hr hs => absurd (hr.2.trans_le (h.trans hs.1)) (lt_irrefl _)

/-- **Regions one behind the other.** -/
def layOut : ℕ → List ℕ → List Region
  | _, [] => []
  | start, size :: sizes => ⟨start, size⟩ :: layOut (start + size) sizes

theorem layOut_within (h : r ∈ layOut start sizes) : r.Within ⟨start, sizes.sum⟩ := by
  induction sizes generalizing start with
  | nil => cases h
  | cons size sizes ih =>
      rw [List.sum_cons]
      rcases List.mem_cons.mp h with rfl | h
      · exact ⟨le_rfl, Nat.add_le_add_left (Nat.le_add_right ..) _⟩
      · obtain ⟨hstart, hstop⟩ := ih h
        refine ⟨(Nat.le_add_right ..).trans hstart, hstop.trans ?_⟩
        rw [stop, stop, Nat.add_assoc]

/-- **They are apart from each other.** -/
theorem layOut_apart (start : ℕ) (sizes : List ℕ) : (layOut start sizes).Pairwise Apart := by
  induction sizes generalizing start with
  | nil => exact .nil
  | cons size sizes ih =>
      exact .cons (fun r hr => apart_of_stop_le (layOut_within hr).start) (ih _)

end Region
