import Mathlib

/-!
# Lists of chunks

A list that is put together from chunks of one length, and what is left of it when whole chunks
are taken from its front.

* `Chunked k cs xs` — `xs` consists of the chunks `cs`, each of length `k`.
-/

namespace Chunks

universe u v

variable {α : Type u} {β : Type v} {k j : ℕ} {cs ds : List (List α)} {c xs ys : List α}

/-- **A list of chunks of length `k`.** -/
structure Chunked (k : ℕ) (cs : List (List α)) (xs : List α) : Prop where
  length : ∀ c ∈ cs, c.length = k
  flat : cs.flatten = xs

namespace Chunked

theorem nil (k : ℕ) : Chunked k [] ([] : List α) := ⟨fun _ h => absurd h List.not_mem_nil, rfl⟩

theorem single (h : c.length = k) : Chunked k [c] c :=
  ⟨fun _ hc => (List.mem_singleton.mp hc).symm ▸ h, by simp⟩

theorem append (h : Chunked k cs xs) (h' : Chunked k ds ys) : Chunked k (cs ++ ds) (xs ++ ys) := by
  refine ⟨fun c hc => ?_, ?_⟩
  · rcases List.mem_append.mp hc with hc | hc
    · exact h.length c hc
    · exact h'.length c hc
  · rw [List.flatten_append, h.flat, h'.flat]

theorem length_eq (h : Chunked k cs xs) : xs.length = cs.length * k := by
  obtain ⟨hlen, rfl⟩ := h
  induction cs with
  | nil => simp
  | cons c cs ih =>
      rw [List.flatten_cons, List.length_append, hlen c List.mem_cons_self,
        ih fun c hc => hlen c (List.mem_cons_of_mem _ hc), List.length_cons]
      ring

/-- The empty list has no chunks but empty ones. -/
theorem eq_nil (h : Chunked k cs ([] : List α)) (hk : 0 < k) : cs = [] := by
  have hlen : 0 = cs.length * k := h.length_eq
  rcases Nat.mul_eq_zero.mp hlen.symm with hcs | hzero
  · exact List.length_eq_zero_iff.mp hcs
  · exact absurd hzero (Nat.ne_of_gt hk)

theorem dvd (h : Chunked k cs xs) : k ∣ xs.length := ⟨cs.length, by rw [h.length_eq, mul_comm]⟩

/-- Whole chunks are taken. -/
theorem take (h : Chunked k cs xs) (j : ℕ) : Chunked k (cs.take j) (xs.take (j * k)) := by
  refine ⟨fun c hc => h.length c (List.mem_of_mem_take hc), ?_⟩
  obtain ⟨hlen, rfl⟩ := h
  induction cs generalizing j with
  | nil => simp
  | cons c cs ih =>
      cases j with
      | zero => simp
      | succ j =>
          have hc := hlen c List.mem_cons_self
          rw [List.take_succ_cons, List.flatten_cons, List.flatten_cons, Nat.succ_mul, Nat.add_comm,
            ← hc, List.take_length_add_append,
            ih j fun d hd => hlen d (List.mem_cons_of_mem c hd), hc]

theorem drop (h : Chunked k cs xs) (j : ℕ) : Chunked k (cs.drop j) (xs.drop (j * k)) := by
  refine ⟨fun c hc => h.length c (List.mem_of_mem_drop hc), ?_⟩
  have htake := (h.take j).flat
  have hall : (cs.take j).flatten ++ (cs.drop j).flatten = xs := by
    rw [← List.flatten_append, List.take_append_drop, h.flat]
  rw [htake] at hall
  exact List.append_cancel_left (hall.trans (List.take_append_drop (j * k) xs).symm)

/-- The first chunk. -/
theorem exists_first (h : Chunked k cs xs) (hxs : xs ≠ []) :
    ∃ c rest, cs = c :: rest ∧ xs.take k = c ∧ Chunked k rest (xs.drop k) := by
  cases cs with
  | nil => exact absurd h.flat.symm hxs
  | cons c rest =>
      refine ⟨c, rest, rfl, ?_, ?_⟩
      · have := (h.take 1).flat
        simpa using this.symm
      · simpa using h.drop 1

/-- A number of elements that is a multiple of `k`. -/
theorem take_of_dvd {n : ℕ} (h : Chunked k cs xs) (hn : k ∣ n) :
    ∃ j, Chunked k (cs.take j) (xs.take n) ∧ Chunked k (cs.drop j) (xs.drop n) := by
  obtain ⟨j, rfl⟩ := hn
  rw [Nat.mul_comm]
  exact ⟨j, h.take j, h.drop j⟩

/-- A list whose length is a multiple of `k`. -/
theorem exists_of_dvd (h : k ∣ xs.length) : ∃ cs, Chunked k cs xs := by
  obtain ⟨n, hn⟩ := h
  induction n generalizing xs with
  | zero => exact ⟨[], List.length_eq_zero_iff.mp hn ▸ .nil k⟩
  | succ n ih =>
      have hfirst : (xs.take k).length = k := by
        rw [List.length_take, hn]
        exact min_eq_left (Nat.le_mul_of_pos_right k n.succ_pos)
      have hrest : (xs.drop k).length = k * n := by
        rw [List.length_drop, hn, Nat.mul_succ, Nat.add_sub_cancel]
      obtain ⟨cs, hcs⟩ := ih hrest
      have hall := (single hfirst).append hcs
      rw [List.take_append_drop] at hall
      exact ⟨_, hall⟩

theorem mem (h : Chunked k cs xs) {x : α} (hc : c ∈ cs) (hx : x ∈ c) : x ∈ xs :=
  h.flat ▸ List.mem_flatten.mpr ⟨c, hc, hx⟩

end Chunked

end Chunks
