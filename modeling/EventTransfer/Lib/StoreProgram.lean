import Mathlib

/-!
# Store programs and the points at which they can die

A program that changes shared memory is more than the memory it leaves behind:
the process running it can be killed between any two of its stores, and whoever
repairs the memory afterwards sees a half-finished change.  `Prog σ α` is a
program over a memory `σ` that records exactly this: besides its value, the
memory after *each* of its stores.

* `crashStates m s` — the memories a process executing `m` from `s` can leave
  behind when it dies: `s` itself and the memory after every prefix of the
  stores.
* `wp m C Q s` — total correctness with a crash condition: every crash state
  satisfies `C`, and the value and the final memory satisfy `Q`.

The `wp` of straight-line code is computed by the simp lemmas below; loops are
recursive functions, and their `wp` is proved by induction from an invariant.
-/

namespace StoreProgram

universe u v

/-- What a run leaves: its value and the memories after each of its stores, in
the order of the stores. -/
structure Outcome (σ : Type u) (α : Type v) where
  val : α
  stores : List σ

/-- A program over the memory `σ` with values in `α`. -/
def Prog (σ : Type u) (α : Type v) := σ → Outcome σ α

namespace Prog

variable {σ : Type u} {α β : Type v}

/-- The value a complete run returns. -/
def value (m : Prog σ α) (s : σ) : α := (m s).val

/-- **The crash states**: the memory before the first store and the memory after
every prefix of the stores. -/
def crashStates (m : Prog σ α) (s : σ) : List σ := s :: (m s).stores

/-- The memory a complete run leaves behind: the one after its last store. -/
def final (m : Prog σ α) (s : σ) : σ :=
  (crashStates m s).getLast (List.cons_ne_nil _ _)

instance : Monad (Prog σ) where
  pure a := fun _ => ⟨a, []⟩
  bind m f := fun s =>
    ⟨(f (value m s) (final m s)).val,
      (m s).stores ++ (f (value m s) (final m s)).stores⟩

/-- Read the whole memory; reading is not a store. -/
def get : Prog σ σ := fun s => ⟨s, []⟩

/-- One store. -/
def store (f : σ → σ) : Prog σ PUnit := fun s => ⟨⟨⟩, [f s]⟩

/-- Run `m` only if `c` holds. -/
def when (c : Prop) [Decidable c] (m : Prog σ PUnit) : Prog σ PUnit :=
  if c then m else pure ⟨⟩

@[simp] theorem value_pure (a : α) (s : σ) : value (pure a : Prog σ α) s = a := rfl

@[simp] theorem final_pure (a : α) (s : σ) : final (pure a : Prog σ α) s = s := rfl

@[simp] theorem crashStates_pure (a : α) (s : σ) :
    crashStates (pure a : Prog σ α) s = [s] := rfl

@[simp] theorem value_get (s : σ) : value (get : Prog σ σ) s = s := rfl

@[simp] theorem final_get (s : σ) : final (get : Prog σ σ) s = s := rfl

@[simp] theorem crashStates_get (s : σ) : crashStates (get : Prog σ σ) s = [s] := rfl

@[simp] theorem final_store (f : σ → σ) (s : σ) : final (store f) s = f s := rfl

@[simp] theorem crashStates_store (f : σ → σ) (s : σ) :
    crashStates (store f) s = [s, f s] := rfl

@[simp] theorem value_bind (m : Prog σ α) (f : α → Prog σ β) (s : σ) :
    value (m >>= f) s = value (f (value m s)) (final m s) := rfl

theorem crashStates_bind (m : Prog σ α) (f : α → Prog σ β) (s : σ) :
    crashStates (m >>= f) s =
      crashStates m s ++ (f (value m s) (final m s)).stores := rfl

private theorem getLast_append_eq {xs ys : List σ} (hx : xs ≠ []) :
    (xs ++ ys).getLast (by simp [hx]) =
      (xs.getLast hx :: ys).getLast (List.cons_ne_nil _ _) := by
  cases ys with
  | nil => simp
  | cons y ys => simp [List.getLast_append_of_ne_nil]

/-- The memory after a sequence is the memory its second part leaves when it
starts from the memory the first part leaves. -/
@[simp] theorem final_bind (m : Prog σ α) (f : α → Prog σ β) (s : σ) :
    final (m >>= f) s = final (f (value m s)) (final m s) :=
  getLast_append_eq (List.cons_ne_nil _ _)

/-- Reading is no step of the run. -/
theorem get_bind_apply {γ : Type u} (f : σ → Prog σ γ) (s : σ) : (get >>= f) s = f s s := rfl

/-- The memory left depends on the run only. -/
theorem final_congr {m n : Prog σ α} {s : σ} (h : m s = n s) : final m s = final n s := by
  simp only [final, crashStates, h]

/-- The final memory is one of the crash states: the process can also die after
its last store. -/
theorem final_mem_crashStates (m : Prog σ α) (s : σ) :
    final m s ∈ crashStates m s := List.getLast_mem _

/-! ### Correctness with a crash condition -/

/-- **Correctness with a crash condition.**  Wherever the process dies the
memory satisfies `C`; if it completes, its value and memory satisfy `Q`. -/
def wp (m : Prog σ α) (C : σ → Prop) (Q : α → σ → Prop) (s : σ) : Prop :=
  (∀ t ∈ crashStates m s, C t) ∧ Q (value m s) (final m s)

variable {C C' : σ → Prop} {s : σ}

@[simp] theorem wp_pure {Q : α → σ → Prop} (a : α) :
    wp (pure a) C Q s ↔ C s ∧ Q a s := by
  simp [wp]

@[simp] theorem wp_get {C : σ → Prop} {Q : σ → σ → Prop} {s : σ} :
    wp get C Q s ↔ C s ∧ Q s s := by
  simp [wp]

@[simp] theorem wp_store {C : σ → Prop} {Q : PUnit → σ → Prop} {s : σ} (f : σ → σ) :
    wp (store f) C Q s ↔ C s ∧ C (f s) ∧ Q ⟨⟩ (f s) := by
  simp only [wp, crashStates_store, final_store, List.forall_mem_cons,
    List.not_mem_nil, false_imp_iff, implies_true, and_true, and_assoc]

/-- **Sequencing.**  The second part is verified from the memory and the value
the first part leaves. -/
@[simp] theorem wp_bind {Q : β → σ → Prop} (m : Prog σ α) (f : α → Prog σ β) :
    wp (m >>= f) C Q s ↔ wp m C (fun a t => wp (f a) C Q t) s := by
  simp only [wp, crashStates_bind, value_bind, final_bind, List.forall_mem_append]
  constructor
  · rintro ⟨⟨h1, h2⟩, h3⟩
    refine ⟨h1, ?_, h3⟩
    intro t ht
    rcases List.mem_cons.mp ht with rfl | ht
    · exact h1 _ (final_mem_crashStates m s)
    · exact h2 t ht
  · rintro ⟨h1, h2, h3⟩
    exact ⟨⟨h1, fun t ht => h2 t (List.mem_cons_of_mem _ ht)⟩, h3⟩

/-- A store, and what comes after it. -/
theorem wp_store_bind {β : Type} {C : σ → Prop} {Q : β → σ → Prop} {s : σ} {f : σ → σ}
    {k : PUnit → Prog σ β} (hs : C s) (hk : wp (k ⟨⟩) C Q (f s)) : wp (store f >>= k) C Q s := by
  rw [wp_bind, wp_store]
  exact ⟨hs, hk.1 _ List.mem_cons_self, hk⟩

@[simp] theorem wp_ite {Q : α → σ → Prop} {c : Prop} [Decidable c] (m n : Prog σ α) :
    wp (if c then m else n) C Q s ↔ if c then wp m C Q s else wp n C Q s := by
  by_cases h : c <;> simp [h]

@[simp] theorem wp_when {C : σ → Prop} {Q : PUnit → σ → Prop} {s : σ} {c : Prop}
    [Decidable c] (m : Prog σ PUnit) :
    wp (when c m) C Q s ↔ if c then wp m C Q s else C s ∧ Q ⟨⟩ s := by
  simp [when]

/-- A guarded store that would change nothing where its guard fails. -/
theorem wp_when_store {C : σ → Prop} {Q : PUnit → σ → Prop} {s : σ} {c : Prop}
    [Decidable c] {f : σ → σ} (hf : ¬ c → f s = s) :
    wp (when c (store f)) C Q s ↔ C s ∧ C (f s) ∧ Q ⟨⟩ (f s) := by
  rw [wp_when]
  split
  case isTrue hc => exact wp_store f
  case isFalse hc =>
    rw [hf hc]
    tauto

/-- **Consequence.**  Both conditions may be weakened; the crash condition also
holds of the final memory. -/
theorem wp_mono {Q Q' : α → σ → Prop} {m : Prog σ α} (h : wp m C Q s)
    (hC : ∀ t, C t → C' t) (hQ : ∀ a t, C t → Q a t → Q' a t) : wp m C' Q' s :=
  ⟨fun t ht => hC t (h.1 t ht), hQ _ _ (h.1 _ (final_mem_crashStates m s)) h.2⟩

/-- Correctness depends on the run only. -/
theorem wp_congr {Q : α → σ → Prop} {m n : Prog σ α} (h : m s = n s) :
    wp m C Q s ↔ wp n C Q s := by
  simp only [wp, value, crashStates, final, h]

/-- What the crash condition says of one crash state. -/
theorem wp.crash {Q : α → σ → Prop} {m : Prog σ α} (h : wp m C Q s) {t : σ}
    (ht : t ∈ crashStates m s) : C t := h.1 t ht

end Prog

/-! ### Programs on a part of the memory -/

/-- **A part `τ` of a memory `σ`**: what is seen of it, and how it is put back. -/
structure Part (σ : Type u) (τ : Type u) where
  view : σ → τ
  put : σ → τ → σ
  put_view : ∀ s, put s (view s) = s

namespace Part

open Prog

variable {σ τ : Type u} {α : Type v} {p : Part σ τ}

/-- A program on a part of the memory leaves the rest alone. -/
def zoom (p : Part σ τ) (m : Prog τ α) : Prog σ α := fun s =>
  ⟨(m (p.view s)).val, (m (p.view s)).stores.map (p.put s)⟩

@[simp] theorem value_zoom (m : Prog τ α) (s : σ) : value (p.zoom m) s = value m (p.view s) := rfl

@[simp] theorem crashStates_zoom (m : Prog τ α) (s : σ) :
    crashStates (p.zoom m) s = (crashStates m (p.view s)).map (p.put s) := by
  rw [crashStates, crashStates, List.map_cons, p.put_view]
  rfl

@[simp] theorem final_zoom (m : Prog τ α) (s : σ) :
    final (p.zoom m) s = p.put s (final m (p.view s)) := by
  simp only [final, crashStates_zoom, List.getLast_map]

/-- **A program on a part** is verified on that part. -/
@[simp] theorem wp_zoom {C : σ → Prop} {Q : α → σ → Prop} (m : Prog τ α) (s : σ) :
    wp (p.zoom m) C Q s ↔
      wp m (fun t => C (p.put s t)) (fun a t => Q a (p.put s t)) (p.view s) := by
  simp only [wp, crashStates_zoom, value_zoom, final_zoom, List.forall_mem_map]

end Part

/-! ### One program after the other -/

namespace Prog

variable {σ : Type u} {α ι : Type v}

/-- Run `f` on every element of a list, in order; the value is the list of the
values. -/
def each (f : ι → Prog σ α) : List ι → Prog σ (List α)
  | [] => pure []
  | x :: xs => do
      let a ← f x
      let as ← each f xs
      pure (a :: as)

/-- **The invariant rule for a sequence of runs.**  With `done` behind it and `rest`
before it, the run keeps `I`; every single run returns `a`. -/
theorem wp_each {f : ι → Prog σ α} {C : σ → Prop} {I : List ι → σ → Prop} {a : α}
    {all done rest : List ι} {s : σ} (hall : all = done ++ rest) (h : I done s)
    (hC : ∀ done t, I done t → C t)
    (step : ∀ done x t, done ++ [x] <+: all → I done t →
      wp (f x) C (fun b u => b = a ∧ I (done ++ [x]) u) t) :
    wp (each f rest) C (fun as t => as = List.replicate rest.length a ∧ I all t) s := by
  induction rest generalizing done s with
  | nil =>
      obtain rfl : all = done := by simpa using hall
      simp only [each, wp_pure]
      exact ⟨hC _ _ h, rfl, h⟩
  | cons x rest ih =>
      have hall' : all = (done ++ [x]) ++ rest := by simp [hall]
      unfold each
      rw [wp_bind]
      refine wp_mono (step done x s ⟨rest, hall'.symm⟩ h) (fun _ h => h) ?_
      rintro b t - ⟨rfl, ht⟩
      rw [wp_bind]
      refine wp_mono (ih hall' ht) (fun _ h => h) ?_
      rintro as u hu ⟨rfl, hI⟩
      rw [wp_pure]
      exact ⟨hu, rfl, hI⟩

end Prog

end StoreProgram
