import EventTransfer.StationGroups

/-!
# Linking and unlinking a station, store by store

What `station_insert` and `station_remove` do to a well-formed chain.  Both change the
backward links first and the forward link that makes the change visible last, so that at
every point between two stores the forward links show either the old chain or the new
one.
-/

namespace EventTransfer

open LinkedHeap StoreProgram StoreProgram.Prog

variable {s t : Stations} {gs gs' us vs : List Group} {ps : ℕ} {place : Place}

/-- **The place fits the chain** `gs`, and a station put there makes it `gs'`. -/
inductive Fits (s : Stations) (ps : ℕ) : List Group → Place → List Group → Prop
  | atEnd {us : List Group} {previous : ℕ} (last : (heads us).getLast? = some previous) :
      Fits s ps us (.atEnd previous) (us ++ [(ps, [])])
  | between {us vs : List Group} {previous next : ℕ}
      (last : (heads us).getLast? = some previous) (first : (heads vs).head? = some next) :
      Fits s ps (us ++ vs) (.between previous next) (us ++ (ps, []) :: vs)
  | inGroup {us vs : List Group} {hd parallelStation : ℕ} {xs ys : List ℕ} (ne : us ≠ [])
      (last : (hd :: xs).getLast? = some parallelStation) (parallel : s.isParallel hd = true)
      (parallel' : s.isParallel ps = true)
      (compare : stationCompareParallel (s.config hd) (s.config ps) = true) :
      Fits s ps (us ++ (hd, xs ++ ys) :: vs) (.inGroup parallelStation ys.head?)
        (us ++ (hd, xs ++ ps :: ys) :: vs)

/-- **No link of the station is left over** from an earlier place: the links that
`station_insert` does not set for this place are `-1`. -/
def Clean (s : Stations) (ps : ℕ) : Place → Prop
  | .atEnd _ => s.next ps = none ∧ s.nextparallel ps = none ∧ s.prevparallel ps = none
  | .between _ _ => s.nextparallel ps = none ∧ s.prevparallel ps = none
  | .inGroup _ _ => s.next ps = none ∧ s.prev ps = none
  | .refused => True

instance (s : Stations) (ps : ℕ) : (place : Place) → Decidable (Clean s ps place)
  | .atEnd _ => inferInstanceAs (Decidable (_ ∧ _ ∧ _))
  | .between _ _ => inferInstanceAs (Decidable (_ ∧ _))
  | .inGroup _ _ => inferInstanceAs (Decidable (_ ∧ _))
  | .refused => inferInstanceAs (Decidable True)

/-- Nothing but links, `stat_tail` and `waslast` differs. -/
structure LinksOnly (s t : Stations) : Prop where
  name : t.name = s.name
  config : t.config = s.config
  status : t.status = s.status
  nattachments : t.nattachments = s.nattachments
  nstations : t.nstations = s.nstations

theorem LinksOnly.refl (s : Stations) : LinksOnly s s := ⟨rfl, rfl, rfl, rfl, rfl⟩

theorem LinksOnly.trans {u : Stations} (h : LinksOnly s t) (h' : LinksOnly t u) :
    LinksOnly s u :=
  ⟨h'.name.trans h.name, h'.config.trans h.config, h'.status.trans h.status,
    h'.nattachments.trans h.nattachments, h'.nstations.trans h.nstations⟩

/-- Between two stores of a change from `gs` to `gs'`. -/
def Halfway (s : Stations) (gs gs' : List Group) (t : Stations) : Prop :=
  LinksOnly s t ∧ (Forward t gs ∨ Forward t gs')

/-- As long as the forward links of its stations are as before, the old chain is seen. -/
theorem ChainOk.halfway_old (h : ChainOk s gs) (hl : LinksOnly s t)
    (hnext : ∀ i ∈ heads gs, t.next i = s.next i)
    (hnp : ∀ i ∈ members gs, t.nextparallel i = s.nextparallel i)
    (hprev0 : t.prev 0 = s.prev 0) (hpp0 : t.prevparallel 0 = s.prevparallel 0) :
    Halfway s gs gs' t :=
  ⟨hl, Or.inl (h.forward.congr hl.config hnext hnp hprev0 hpp0)⟩

theorem ChainOk.halfway_start (h : ChainOk s gs) : Halfway s gs gs' s :=
  h.halfway_old (.refl s) (fun _ _ => rfl) (fun _ _ => rfl) rfl rfl

/-- The links of GRAND_CENTRAL, which is in the chain, are not touched. -/
theorem ChainOk.zero_mem (h : ChainOk s gs) : 0 ∈ members gs := by
  obtain ⟨rest, rfl⟩ := h.heads_eq
  simp

/-- After the last link the new chain is there. -/
theorem ChainOk.linked (h : ChainOk t gs') (hl : LinksOnly s t) :
    Halfway s gs gs' t ∧ ChainOk t gs' ∧ LinksOnly s t :=
  ⟨⟨hl, Or.inr h.forward⟩, h, hl⟩

theorem ne_nil_of_getLast?_heads {a : ℕ} (h : (heads us).getLast? = some a) : us ≠ [] := by
  rintro rfl
  simp at h

/-! ## Linking -/

theorem some_ne_of_notMem (hps : ps ∉ members gs) {i : ℕ} (hi : i ∈ members gs) : ¬ some ps = some i := by
  rintro hi'
  exact hps (Option.some.inj hi' ▸ hi)

theorem getLast?_heads_ne (hps : ps ∉ members gs) : ¬ (heads gs).getLast? = some ps :=
  fun hl => hps (mem_members_of_mem_heads (List.mem_of_getLast? hl))

theorem head?_heads_ne (hps : ps ∉ members gs) : ¬ (heads gs).head? = some ps :=
  fun hl => hps (mem_members_of_mem_heads (List.mem_of_head? hl))

/-- Linking a station behind the last one of the main list. -/
theorem wp_linkAt_atEnd {previous : ℕ} (h : ChainOk s gs) (hps : ps ∉ members gs)
    (last : (heads gs).getLast? = some previous)
    (hc : Clean s ps (.atEnd previous)) :
    wp (linkAt ps (.atEnd previous)) (Halfway s gs (gs ++ [(ps, [])]))
      (fun _ t => ChainOk t (gs ++ [(ps, [])]) ∧ LinksOnly s t) s := by
  obtain ⟨hnextps, hnpps, hppps⟩ := hc
  have hgs : gs ≠ [] := ne_nil_of_getLast?_heads last
  have h' : ChainOk s (gs ++ []) := by rwa [List.append_nil]
  have hps' : ps ∉ members (gs ++ []) := by rwa [List.append_nil]
  have hps0 : ¬ some ps = some 0 := some_ne_of_notMem hps h.zero_mem
  have old : ∀ {t}, LinksOnly s t → t.next = s.next → t.nextparallel = s.nextparallel →
      t.prev = assign s.prev (some ps) (heads gs).getLast? → t.prevparallel = s.prevparallel →
      Halfway s gs (gs ++ [(ps, [])]) t := fun hl hn hp hprev hpp =>
    h.halfway_old hl (fun i _ => congrFun hn i) (fun i _ => congrFun hp i)
      ((congrFun hprev 0).trans (assign_of_ne hps0)) (congrFun hpp 0)
  simp only [linkAt, wp_bind, wp_store, ← last]
  have h1 := @old { s with prev := assign s.prev (some ps) (heads gs).getLast? }
    ⟨rfl, rfl, rfl, rfl, rfl⟩ rfl rfl rfl rfl
  have h2 := @old { s with prev := assign s.prev (some ps) (heads gs).getLast?
                           statTail := some ps } ⟨rfl, rfl, rfl, rfl, rfl⟩ rfl rfl rfl rfl
  refine ⟨h.halfway_start, h1, h1, h2, h2, ChainOk.linked ?_ ⟨rfl, rfl, rfl, rfl, rfl⟩⟩
  refine h'.insertMain hgs hps' rfl (fun b _ => assign_apply _ _ _ _) (fun b hb => ?_) rfl rfl
    ?_ ?_ hnpps hppps (by simp)
  · dsimp only
    rw [assign_apply, if_neg (some_ne_of_notMem hps' hb)]
    simp
  · dsimp only
    rw [assign_apply, if_neg (getLast?_heads_ne hps), hnextps]
    simp
  · dsimp only
    rw [assign_apply, if_pos rfl]

/-- Linking a station between two others of the main list. -/
theorem wp_linkAt_between {previous next : ℕ} (h : ChainOk s (us ++ vs))
    (hps : ps ∉ members (us ++ vs)) (last : (heads us).getLast? = some previous)
    (first : (heads vs).head? = some next) (hc : Clean s ps (.between previous next)) :
    wp (linkAt ps (.between previous next)) (Halfway s (us ++ vs) (us ++ (ps, []) :: vs))
      (fun _ t => ChainOk t (us ++ (ps, []) :: vs) ∧ LinksOnly s t) s := by
  obtain ⟨hnpps, hppps⟩ := hc
  have hus : us ≠ [] := ne_nil_of_getLast?_heads last
  have hpsu : ps ∉ members us := fun hm => hps (by simp [hm])
  have hpsv : ps ∉ members vs := fun hm => hps (by simp [hm])
  have hps0 : ¬ some ps = some 0 := some_ne_of_notMem hps h.zero_mem
  have hv0 : ¬ (heads vs).head? = some 0 := fun hf =>
    h.ne_zero hus (mem_members_of_mem_heads (List.mem_of_head? hf)) rfl
  have old : ∀ {t}, LinksOnly s t → t.next = assign s.next (some ps) (heads vs).head? →
      t.nextparallel = s.nextparallel → t.prev 0 = s.prev 0 →
      t.prevparallel = s.prevparallel → Halfway s (us ++ vs) (us ++ (ps, []) :: vs) t := by
    intro t hl hn hp hprev hpp
    refine h.halfway_old hl (fun i hi => ?_) (fun i _ => congrFun hp i) hprev (congrFun hpp 0)
    rw [hn, assign_of_ne (some_ne_of_notMem hps (mem_members_of_mem_heads hi))]
  simp only [linkAt, wp_bind, wp_store, ← last, ← first]
  have h1 := @old { s with next := assign s.next (some ps) (heads vs).head? }
    ⟨rfl, rfl, rfl, rfl, rfl⟩ rfl rfl rfl rfl
  have h2 := @old { s with next := assign s.next (some ps) (heads vs).head?
                           prev := assign s.prev (some ps) (heads us).getLast? }
    ⟨rfl, rfl, rfl, rfl, rfl⟩ rfl rfl (assign_of_ne hps0) rfl
  have h3 := @old { s with next := assign s.next (some ps) (heads vs).head?
                           prev := assign (assign s.prev (some ps) (heads us).getLast?)
                             (heads vs).head? (some ps) }
    ⟨rfl, rfl, rfl, rfl, rfl⟩ rfl rfl ((assign_of_ne hv0).trans (assign_of_ne hps0)) rfl
  refine ⟨h.halfway_start, h1, h1, h2, h2, h3, h3, ChainOk.linked ?_ ⟨rfl, rfl, rfl, rfl, rfl⟩⟩
  refine h.insertMain hus hps rfl (fun b hb => ?_) (fun b hb => ?_) rfl rfl ?_ ?_ hnpps hppps ?_
  · dsimp only
    rw [assign_apply, assign_apply _ (some ps), if_neg (some_ne_of_notMem hps hb)]
  · dsimp only
    rw [assign_apply, assign_apply _ (some ps), if_neg (some_ne_of_notMem hps hb)]
  · dsimp only
    rw [assign_apply, if_neg (getLast?_heads_ne hpsu), assign_apply, if_pos rfl]
  · dsimp only
    rw [assign_apply, if_neg (head?_heads_ne hpsv), assign_apply, if_pos rfl]
  · have hvs : heads vs ≠ [] := by
      rintro hnil
      simp [hnil] at first
    obtain ⟨b, hb⟩ : ∃ b, (heads vs).getLast? = some b :=
      ⟨_, List.getLast?_eq_some_getLast hvs⟩
    rw [h.tail, heads_append, heads_append, heads_cons]
    simp [List.getLast?_append, List.getLast?_cons, hb]

/-- Linking a station into a group. -/
theorem wp_linkAt_inGroup {hd parallelStation : ℕ} {xs ys : List ℕ}
    (h : ChainOk s (us ++ (hd, xs ++ ys) :: vs)) (hus : us ≠ [])
    (hps : ps ∉ members (us ++ (hd, xs ++ ys) :: vs))
    (last : (hd :: xs).getLast? = some parallelStation) (hpar : s.isParallel hd = true)
    (hparps : s.isParallel ps = true)
    (hcmp : stationCompareParallel (s.config hd) (s.config ps) = true)
    (hc : Clean s ps (.inGroup parallelStation ys.head?)) :
    wp (linkAt ps (.inGroup parallelStation ys.head?))
      (Halfway s (us ++ (hd, xs ++ ys) :: vs) (us ++ (hd, xs ++ ps :: ys) :: vs))
      (fun _ t => ChainOk t (us ++ (hd, xs ++ ps :: ys) :: vs) ∧ LinksOnly s t) s := by
  obtain ⟨hnextps, hprevps⟩ := hc
  have hgrp : ∀ b ∈ hd :: (xs ++ ys), ps ≠ b := by
    rintro b hb rfl
    exact hps (mem_members.mpr ⟨_, List.mem_append_right _ List.mem_cons_self, hb⟩)
  have hlast : ¬ (hd :: xs).getLast? = some ps := fun hl =>
    hgrp ps (List.mem_append_left ys (List.mem_of_getLast? hl)) rfl
  have hfirst : ¬ ys.head? = some ps := fun hf =>
    hgrp ps (List.mem_append_right (hd :: xs) (List.mem_of_head? hf)) rfl
  have hps0 : ¬ some ps = some 0 := some_ne_of_notMem hps h.zero_mem
  have hys0 : ¬ ys.head? = some 0 := by
    intro hf
    refine h.ne_zero (i := 0) hus ?_ rfl
    rw [members_cons, ← List.cons_append]
    exact List.mem_append_left _ (List.mem_cons_of_mem _
      (List.mem_append_right _ (List.mem_of_head? hf)))
  have old : ∀ {t}, LinksOnly s t → t.next = s.next →
      t.nextparallel = assign s.nextparallel (some ps) ys.head? → t.prev = s.prev →
      t.prevparallel 0 = s.prevparallel 0 →
      Halfway s (us ++ (hd, xs ++ ys) :: vs) (us ++ (hd, xs ++ ps :: ys) :: vs) t := by
    intro t hl hn hp hprev hpp
    refine h.halfway_old hl (fun i _ => congrFun hn i) (fun i hi => ?_) (congrFun hprev 0) hpp
    rw [hp, assign_of_ne (some_ne_of_notMem hps hi)]
  simp only [linkAt, wp_bind, wp_store, ← last]
  rw [wp_when_store (fun hne => by rw [not_not.mp hne]; rfl)]
  have h1 := @old { s with nextparallel := assign s.nextparallel (some ps) ys.head? }
    ⟨rfl, rfl, rfl, rfl, rfl⟩ rfl rfl rfl rfl
  have h2 := @old
    { s with nextparallel := assign s.nextparallel (some ps) ys.head?
             prevparallel := assign s.prevparallel (some ps) (hd :: xs).getLast? }
    ⟨rfl, rfl, rfl, rfl, rfl⟩ rfl rfl rfl (assign_of_ne hps0)
  have h3 := @old
    { s with nextparallel := assign s.nextparallel (some ps) ys.head?
             prevparallel := assign (assign s.prevparallel (some ps) (hd :: xs).getLast?)
               ys.head? (some ps) }
    ⟨rfl, rfl, rfl, rfl, rfl⟩ rfl rfl rfl ((assign_of_ne hys0).trans (assign_of_ne hps0))
  refine ⟨h.halfway_start, h1, h1, h2, h2, h3, h3, ChainOk.linked ?_ ⟨rfl, rfl, rfl, rfl, rfl⟩⟩
  refine h.insertMember hus hps rfl hpar hparps hcmp (fun b hb => ?_) (fun b hb => ?_) ?_ ?_ rfl
    rfl hnextps hprevps rfl
  · dsimp only
    rw [assign_apply, assign_apply _ (some ps), if_neg (some_ne_of_notMem hps hb)]
  · dsimp only
    rw [assign_apply, assign_apply _ (some ps), if_neg (some_ne_of_notMem hps hb)]
  · dsimp only
    rw [assign_apply, if_neg hlast, assign_apply, if_pos rfl]
  · dsimp only
    rw [assign_apply, if_neg hfirst, assign_apply, if_pos rfl]

/-- **Linking a station, store by store.** -/
theorem wp_linkAt (h : ChainOk s gs) (hps : ps ∉ members gs) (hf : Fits s ps gs place gs')
    (hc : Clean s ps place) :
    wp (linkAt ps place) (Halfway s gs gs') (fun _ t => ChainOk t gs' ∧ LinksOnly s t) s := by
  cases hf with
  | atEnd last => exact wp_linkAt_atEnd h hps last hc
  | between last first => exact wp_linkAt_between h hps last first hc
  | inGroup ne last parallel parallel' compare =>
      exact wp_linkAt_inGroup h ne hps last parallel parallel' compare hc

/-! ## Unlinking -/

/-- **The station leaves the chain** `gs`, which then is `gs'`: it stands alone in the
main list, or heads a group, or is behind the head of one. -/
inductive Leaves (ps : ℕ) : List Group → List Group → Prop
  | alone {us vs : List Group} (ne : us ≠ []) : Leaves ps (us ++ (ps, []) :: vs) (us ++ vs)
  | head {us vs : List Group} {m : ℕ} {ms : List ℕ} (ne : us ≠ []) :
      Leaves ps (us ++ (ps, m :: ms) :: vs) (us ++ (m, ms) :: vs)
  | member {us vs : List Group} {hd : ℕ} {xs ys : List ℕ} (ne : us ≠ []) :
      Leaves ps (us ++ (hd, xs ++ ps :: ys) :: vs) (us ++ (hd, xs ++ ys) :: vs)

/-- Every station but GRAND_CENTRAL can leave. -/
theorem ChainOk.exists_leaves (h : ChainOk s gs) (hps : ps ∈ members gs) (h0 : ps ≠ 0) :
    ∃ gs', Leaves ps gs gs' := by
  obtain ⟨g, hg, hi⟩ := mem_members.mp hps
  obtain ⟨us, vs, rfl⟩ := List.append_of_mem hg
  have hus : us ≠ [] := by
    rintro rfl
    have hgc : g = (0, []) := by simpa using h.gc
    subst hgc
    simp at hi
    exact h0 hi
  obtain ⟨hd, rest⟩ := g
  rcases List.mem_cons.mp hi with hhd | hi
  · subst hhd
    cases rest with
    | nil => exact ⟨_, .alone hus⟩
    | cons m ms => exact ⟨_, .head hus⟩
  · obtain ⟨xs, ys, hrest⟩ := List.append_of_mem hi
    simp only at hrest
    subst hrest
    exact ⟨_, .member hus⟩

/-- The stations left are all the others. -/
theorem Leaves.members_perm (hl : Leaves ps gs gs') : (members gs).Perm (ps :: members gs') := by
  cases hl with
  | alone ne =>
      rw [members_append, members_append, members_cons]
      exact List.perm_middle
  | head ne =>
      rw [members_append, members_append, members_cons, members_cons]
      exact List.perm_middle
  | @member us vs hd xs ys ne =>
      have e1 : members (us ++ (hd, xs ++ ps :: ys) :: vs) =
          (members us ++ hd :: xs) ++ ps :: (ys ++ members vs) := by simp
      have e2 : members (us ++ (hd, xs ++ ys) :: vs) =
          (members us ++ hd :: xs) ++ (ys ++ members vs) := by simp
      rw [e1, e2]
      exact List.perm_middle

/-- The station's own links are as they were. -/
structure KeepsLinks (s t : Stations) (ps : ℕ) : Prop where
  next : t.next ps = s.next ps
  prev : t.prev ps = s.prev ps
  nextparallel : t.nextparallel ps = s.nextparallel ps
  prevparallel : t.prevparallel ps = s.prevparallel ps

theorem KeepsLinks.clean (h : KeepsLinks s t ps) : Clean t ps place ↔ Clean s ps place := by
  cases place <;> simp [Clean, h.next, h.prev, h.nextparallel, h.prevparallel]

/-- After the last store of a removal the new chain is there. -/
theorem ChainOk.unlinked (h : ChainOk t gs') (hl : LinksOnly s t) (hk : KeepsLinks s t ps) :
    Halfway s gs gs' t ∧ ChainOk t gs' ∧ LinksOnly s t ∧ KeepsLinks s t ps :=
  ⟨⟨hl, Or.inr h.forward⟩, h, hl, hk⟩

/-- The last station of the main list is the one at the end of the chain. -/
theorem ChainOk.statTail_eq_iff {rest : List ℕ} (h : ChainOk s (us ++ (ps, rest) :: vs)) :
    s.statTail = some ps ↔ vs = [] := by
  have hnd := h.nodup.sublist (heads_sublist_members _)
  rw [heads_append, heads_cons, List.nodup_append, List.nodup_cons] at hnd
  rw [h.tail]
  constructor
  · intro hl
    by_contra hvs
    obtain ⟨v, vs, rfl⟩ := List.exists_cons_of_ne_nil hvs
    have hlast : (heads (us ++ (ps, rest) :: v :: vs)).getLast? = (heads (v :: vs)).getLast? := by
      simp [List.getLast?_append, List.getLast?_cons]
    rw [hlast] at hl
    exact hnd.2.1.1 (List.mem_of_getLast? hl)
  · rintro rfl
    simp

/-- The links of a station of the main list. -/
theorem ChainOk.main_links {rest : List ℕ} (h : ChainOk s (us ++ (ps, rest) :: vs)) :
    s.prev ps = (heads us).getLast? ∧ s.next ps = (heads vs).head? := by
  have hmain := h.main
  rw [heads_append, heads_cons] at hmain
  simpa using hmain.links

/-- Its neighbours are other stations. -/
theorem ChainOk.main_neighbours {rest : List ℕ} (h : ChainOk s (us ++ (ps, rest) :: vs))
    {i : ℕ} (hi : i ∈ ps :: rest) :
    ¬ (heads us).getLast? = some i ∧ ¬ (heads vs).head? = some i := by
  have hnd := h.nodup
  rw [members_append, members_cons, ← List.cons_append, List.nodup_append,
    List.nodup_append] at hnd
  obtain ⟨-, ⟨-, -, hdis⟩, hdis'⟩ := hnd
  constructor
  · intro hl
    exact hdis' i (mem_members_of_mem_heads (List.mem_of_getLast? hl)) i
      (List.mem_append_left _ hi) rfl
  · intro hf
    exact hdis i hi i (mem_members_of_mem_heads (List.mem_of_head? hf)) rfl

/-- Unlinking a station that stands alone in the main list. -/
theorem wp_unlinkMain (h : ChainOk s (us ++ (ps, []) :: vs)) (hus : us ≠ []) :
    wp (unlinkMain ps) (Halfway s (us ++ (ps, []) :: vs) (us ++ vs))
      (fun _ t => ChainOk t (us ++ vs) ∧ LinksOnly s t ∧ KeepsLinks s t ps) s := by
  obtain ⟨hprevps, hnextps⟩ := h.main_links
  obtain ⟨hlast, hfirst⟩ := h.main_neighbours List.mem_cons_self
  have hv0 : ¬ (heads vs).head? = some 0 := fun hf =>
    h.ne_zero hus (List.mem_cons_of_mem _ (mem_members_of_mem_heads (List.mem_of_head? hf))) rfl
  have old : ∀ {t}, LinksOnly s t → t.next = s.next → t.nextparallel = s.nextparallel →
      t.prev 0 = s.prev 0 → t.prevparallel = s.prevparallel →
      Halfway s (us ++ (ps, []) :: vs) (us ++ vs) t := fun hl hn hp hprev hpp =>
    h.halfway_old hl (fun i _ => congrFun hn i) (fun i _ => congrFun hp i) hprev (congrFun hpp 0)
  have hstart := old (.refl s) rfl rfl rfl rfl
  simp only [unlinkMain, wp_bind, wp_get, wp_ite, wp_store, hprevps, hnextps, h.statTail_eq_iff]
  refine ⟨hstart, ?_⟩
  split
  case isTrue hvs =>
    subst hvs
    have hmid : Halfway s (us ++ [(ps, [])]) (us ++ [])
        { s with statTail := (heads us).getLast? } :=
      old ⟨rfl, rfl, rfl, rfl, rfl⟩ rfl rfl rfl rfl
    refine ⟨hstart, hmid, hmid, ChainOk.unlinked ?_ ⟨rfl, rfl, rfl, rfl, rfl⟩ ⟨?_, rfl, rfl, rfl⟩⟩
    · exact h.removeMain hus rfl (fun b _ => assign_apply _ _ _ _) (fun b _ => by simp)
        (fun _ _ => rfl) (fun _ _ => rfl) (by simp)
    · dsimp only
      rw [assign_apply, if_neg hlast]
  case isFalse hvs =>
    have hmid : Halfway s (us ++ (ps, []) :: vs) (us ++ vs)
        { s with prev := assign s.prev (heads vs).head? (heads us).getLast? } :=
      old ⟨rfl, rfl, rfl, rfl, rfl⟩ rfl rfl (assign_of_ne hv0) rfl
    refine ⟨hstart, hmid, hmid, ChainOk.unlinked ?_ ⟨rfl, rfl, rfl, rfl, rfl⟩ ⟨?_, ?_, rfl, rfl⟩⟩
    · refine h.removeMain hus rfl (fun b _ => assign_apply _ _ _ _)
        (fun b _ => assign_apply _ _ _ _) (fun _ _ => rfl) (fun _ _ => rfl) ?_
      rw [h.tail]
      obtain ⟨v, vs, rfl⟩ := List.exists_cons_of_ne_nil hvs
      simp [List.getLast?_append, List.getLast?_cons]
    · dsimp only
      rw [assign_apply, if_neg hlast]
    · dsimp only
      rw [assign_apply, if_neg hfirst]

/-- Unlinking the head of a group. -/
theorem wp_unlinkHead {m : ℕ} {ms : List ℕ} (h : ChainOk s (us ++ (ps, m :: ms) :: vs))
    (hus : us ≠ []) :
    wp (unlinkHead ps) (Halfway s (us ++ (ps, m :: ms) :: vs) (us ++ (m, ms) :: vs))
      (fun _ t => ChainOk t (us ++ (m, ms) :: vs) ∧ LinksOnly s t ∧ KeepsLinks s t ps) s := by
  have hthis : (ps, m :: ms) ∈ us ++ (ps, m :: ms) :: vs :=
    List.mem_append_right _ List.mem_cons_self
  obtain ⟨hprevps, hnextps⟩ := h.main_links
  obtain ⟨hlast, hfirst⟩ := h.main_neighbours List.mem_cons_self
  obtain ⟨hlastm, hfirstm⟩ := h.main_neighbours (i := m) (by simp)
  have hnpps : s.nextparallel ps = some m := by
    obtain ⟨-, hnp, -⟩ := h.group _ hthis
    simpa using hnp
  have hmheads : m ∉ heads (us ++ (ps, m :: ms) :: vs) :=
    notMem_heads h.nodup hthis List.mem_cons_self
  have hmps : ¬ some m = some ps := by
    rintro hm
    refine hmheads ?_
    rw [Option.some.inj hm]
    simp
  have hv0 : ¬ (heads vs).head? = some 0 := fun hf => by
    refine h.ne_zero (i := 0) hus ?_ rfl
    rw [members_cons]
    exact List.mem_cons_of_mem _ (List.mem_append_right _
      (mem_members_of_mem_heads (List.mem_of_head? hf)))
  have hm0 : 0 ≠ m := (h.ne_zero (i := m) hus (by simp)).symm
  have old : ∀ {t}, LinksOnly s t → (∀ i, i ≠ m → t.next i = s.next i) →
      t.nextparallel = s.nextparallel → t.prev 0 = s.prev 0 →
      t.prevparallel 0 = s.prevparallel 0 →
      Halfway s (us ++ (ps, m :: ms) :: vs) (us ++ (m, ms) :: vs) t := fun hl hn hp =>
    h.halfway_old hl (fun i hi => hn i (ne_of_mem_of_not_mem hi hmheads)) fun i _ => congrFun hp i
  have hm : ∀ {β : Type} (f : ℕ → β) (v : β) (i : ℕ), i ≠ m → assign f (some m) v i = f i := by
    intro β f v i hi
    rw [assign_of_ne (by simpa using hi.symm)]
  simp only [unlinkHead, wp_bind, wp_get, wp_ite, wp_store, hprevps, hnextps, hnpps,
    h.statTail_eq_iff]
  have h0 := old (.refl s) (fun _ _ => rfl) rfl rfl rfl
  have h1 : Halfway s (us ++ (ps, m :: ms) :: vs) (us ++ (m, ms) :: vs)
      { s with prev := assign s.prev (some m) (heads us).getLast? } :=
    old ⟨rfl, rfl, rfl, rfl, rfl⟩ (fun _ _ => rfl) rfl (hm _ _ 0 hm0) rfl
  have h2 : Halfway s (us ++ (ps, m :: ms) :: vs) (us ++ (m, ms) :: vs)
      { s with prev := assign s.prev (some m) (heads us).getLast?
               next := assign s.next (some m) (heads vs).head? } :=
    old ⟨rfl, rfl, rfl, rfl, rfl⟩ (hm _ _) rfl (hm _ _ 0 hm0) rfl
  have h3 : Halfway s (us ++ (ps, m :: ms) :: vs) (us ++ (m, ms) :: vs)
      { s with prev := assign s.prev (some m) (heads us).getLast?
               next := assign s.next (some m) (heads vs).head?
               prevparallel := assign s.prevparallel (some m) none } :=
    old ⟨rfl, rfl, rfl, rfl, rfl⟩ (hm _ _) rfl (hm _ _ 0 hm0) (hm _ _ 0 hm0)
  refine ⟨h0, h0, h1, h1, h2, h2, h3, ?_⟩
  split
  case isTrue hvs =>
    subst hvs
    have h4 : Halfway s (us ++ [(ps, m :: ms)]) (us ++ [(m, ms)])
        { s with prev := assign s.prev (some m) (heads us).getLast?
                 next := assign s.next (some m) (heads []).head?
                 prevparallel := assign s.prevparallel (some m) none
                 statTail := some m } :=
      old ⟨rfl, rfl, rfl, rfl, rfl⟩ (hm _ _) rfl (hm _ _ 0 hm0) (hm _ _ 0 hm0)
    refine ⟨h3, h4, h4, ChainOk.unlinked ?_ ⟨rfl, rfl, rfl, rfl, rfl⟩ ⟨?_, ?_, rfl, ?_⟩⟩
    · refine h.removeHead hus rfl (fun b _ hb => ?_) (fun b _ hb => ?_) ?_ ?_ (fun _ _ => rfl)
        (fun b _ hb => hm _ _ b hb) ?_ (by simp)
      · dsimp only
        rw [assign_apply, hm _ _ b hb]
      · dsimp only
        rw [hm _ _ b hb]
        simp
      · dsimp only
        rw [assign_apply, if_neg hlastm, assign_apply, if_pos rfl]
      · dsimp only
        rw [assign_apply, if_pos rfl]
      · dsimp only
        rw [assign_apply, if_pos rfl]
    · dsimp only
      rw [assign_apply, if_neg hlast, assign_apply, if_neg hmps]
    · dsimp only
      rw [assign_apply, if_neg hmps]
    · dsimp only
      rw [assign_apply, if_neg hmps]
  case isFalse hvs =>
    have h4 : Halfway s (us ++ (ps, m :: ms) :: vs) (us ++ (m, ms) :: vs)
        { s with prev := assign (assign s.prev (some m) (heads us).getLast?) (heads vs).head? (some m)
                 next := assign s.next (some m) (heads vs).head?
                 prevparallel := assign s.prevparallel (some m) none } :=
      old ⟨rfl, rfl, rfl, rfl, rfl⟩ (hm _ _) rfl
        ((assign_of_ne hv0).trans (hm _ _ 0 hm0)) (hm _ _ 0 hm0)
    refine ⟨h3, h4, h4, ChainOk.unlinked ?_ ⟨rfl, rfl, rfl, rfl, rfl⟩ ⟨?_, ?_, rfl, ?_⟩⟩
    · refine h.removeHead hus rfl (fun b _ hb => ?_) (fun b _ hb => ?_) ?_ ?_ (fun _ _ => rfl)
        (fun b _ hb => hm _ _ b hb) ?_ ?_
      · dsimp only
        rw [assign_apply, hm _ _ b hb]
      · dsimp only
        rw [assign_apply, hm _ _ b hb]
      · dsimp only
        rw [assign_apply, if_neg hlastm, assign_apply, if_pos rfl]
      · dsimp only
        rw [assign_apply, if_neg hfirstm, assign_apply, if_pos rfl]
      · dsimp only
        rw [assign_apply, if_pos rfl]
      · rw [h.tail]
        obtain ⟨v, vs, rfl⟩ := List.exists_cons_of_ne_nil hvs
        simp [List.getLast?_append, List.getLast?_cons]
    · dsimp only
      rw [assign_apply, if_neg hlast, assign_apply, if_neg hmps]
    · dsimp only
      rw [assign_apply, if_neg hfirst, assign_apply, if_neg hmps]
    · dsimp only
      rw [assign_apply, if_neg hmps]

/-- Unlinking a station behind the head of a group. -/
theorem wp_unlinkMember {hd : ℕ} {xs ys : List ℕ}
    (h : ChainOk s (us ++ (hd, xs ++ ps :: ys) :: vs)) (hus : us ≠ []) :
    wp (unlinkMember ps)
      (Halfway s (us ++ (hd, xs ++ ps :: ys) :: vs) (us ++ (hd, xs ++ ys) :: vs))
      (fun _ t => ChainOk t (us ++ (hd, xs ++ ys) :: vs) ∧ LinksOnly s t ∧ KeepsLinks s t ps)
      s := by
  have hthis : (hd, xs ++ ps :: ys) ∈ us ++ (hd, xs ++ ps :: ys) :: vs :=
    List.mem_append_right _ List.mem_cons_self
  have hseg : Seg s.nextparallel s.prevparallel none ((hd :: xs) ++ ps :: ys) none :=
    h.group _ hthis
  obtain ⟨hppps, hnpps⟩ := hseg.links
  rw [Option.or_none] at hppps hnpps
  have hndg : ((hd :: xs) ++ ps :: ys).Nodup := by
    have hnd := h.nodup
    rw [members_append, members_cons, ← List.cons_append, List.nodup_append,
      List.nodup_append] at hnd
    exact hnd.2.1.1
  rw [List.nodup_middle, List.nodup_cons, List.mem_append, not_or] at hndg
  have hlast : ¬ (hd :: xs).getLast? = some ps :=
    fun hl => hndg.1.1 (List.mem_of_getLast? hl)
  have hfirst : ¬ ys.head? = some ps := fun hf => hndg.1.2 (List.mem_of_head? hf)
  have hys0 : ¬ ys.head? = some 0 := by
    intro hf
    refine h.ne_zero (i := 0) hus ?_ rfl
    rw [members_cons, ← List.cons_append]
    exact List.mem_append_left _ (List.mem_cons_of_mem _ (List.mem_append_right _
      (List.mem_cons_of_mem _ (List.mem_of_head? hf))))
  have new : ∀ {t}, LinksOnly s t → t.next = s.next → t.prev = s.prev →
      t.nextparallel = assign s.nextparallel (hd :: xs).getLast? ys.head? →
      t.prevparallel = assign s.prevparallel ys.head? (hd :: xs).getLast? →
      t.statTail = s.statTail →
      Halfway s (us ++ (hd, xs ++ ps :: ys) :: vs) (us ++ (hd, xs ++ ys) :: vs) t ∧
        ChainOk t (us ++ (hd, xs ++ ys) :: vs) ∧ LinksOnly s t ∧ KeepsLinks s t ps := by
    intro t hl hn hp hnp hpp ht
    refine ChainOk.unlinked ?_ hl ⟨congrFun hn ps, congrFun hp ps, ?_, ?_⟩
    · exact h.removeMember hus hl.config (fun b _ => by rw [hnp, assign_apply])
        (fun b _ => by rw [hpp, assign_apply]) hn hp ht
    · rw [hnp, assign_apply, if_neg hlast]
    · rw [hpp, assign_apply, if_neg hfirst]
  have h0 : Halfway s (us ++ (hd, xs ++ ps :: ys) :: vs) (us ++ (hd, xs ++ ys) :: vs) s :=
    h.halfway_start
  simp only [unlinkMember, wp_bind, wp_get, wp_store, hppps, hnpps]
  refine ⟨h0, ?_⟩
  rw [wp_when_store (fun hne => by rw [← hnpps, not_not.mp hne]; rfl)]
  have h1 : Halfway s (us ++ (hd, xs ++ ps :: ys) :: vs) (us ++ (hd, xs ++ ys) :: vs)
      { s with prevparallel := assign s.prevparallel ys.head? (hd :: xs).getLast? } :=
    h.halfway_old ⟨rfl, rfl, rfl, rfl, rfl⟩ (fun _ _ => rfl) (fun _ _ => rfl) rfl
      (assign_of_ne hys0)
  refine ⟨h0, h1, h1, ?_⟩
  have h2 := @new
    { s with prevparallel := assign s.prevparallel ys.head? (hd :: xs).getLast?
             nextparallel := assign s.nextparallel (hd :: xs).getLast? ys.head? }
    ⟨rfl, rfl, rfl, rfl, rfl⟩ rfl rfl rfl rfl rfl
  refine ⟨h2.1, ?_⟩
  rw [wp_when]
  split
  case isTrue hw =>
    rw [wp_store]
    exact ⟨h2.1, new ⟨rfl, rfl, rfl, rfl, rfl⟩ rfl rfl rfl rfl rfl⟩
  case isFalse hw => exact h2

/-- **Unlinking a station, store by store.** -/
theorem wp_stationRemove (h : ChainOk s gs) (hl : Leaves ps gs gs') :
    wp (stationRemove ps) (Halfway s gs gs')
      (fun _ t => ChainOk t gs' ∧ LinksOnly s t ∧ KeepsLinks s t ps) s := by
  have hstart : Halfway s gs gs' s := h.halfway_start
  simp only [stationRemove, wp_bind, wp_get, wp_ite]
  refine ⟨hstart, ?_⟩
  cases hl with
  | @alone us vs ne =>
      have hprev : s.prev ps ≠ none := by
        rw [h.main_links.1]
        cases us with
        | nil => exact absurd rfl ne
        | cons u us => simp [List.getLast?_cons]
      have hnp : s.nextparallel ps = none := by
        have hseg := h.group (ps, []) (List.mem_append_right _ List.mem_cons_self)
        exact (seg_singleton.mp hseg).2
      rw [if_pos hprev, if_pos hnp, ite_self]
      exact wp_unlinkMain h ne
  | @head us vs m ms ne =>
      have hthis : (ps, m :: ms) ∈ us ++ (ps, m :: ms) :: vs :=
        List.mem_append_right _ List.mem_cons_self
      have hprev : s.prev ps ≠ none := by
        rw [h.main_links.1]
        cases us with
        | nil => exact absurd rfl ne
        | cons u us => simp [List.getLast?_cons]
      have hnp : ¬ s.nextparallel ps = none := by
        obtain ⟨-, hnp, -⟩ := h.group _ hthis
        simp [hnp]
      rw [if_pos (h.compat _ hthis (by simp) ps (by simp)).1, if_pos hprev, if_neg hnp]
      exact wp_unlinkHead h ne
  | @member us vs hd xs ys ne =>
      have hthis : (hd, xs ++ ps :: ys) ∈ us ++ (hd, xs ++ ps :: ys) :: vs :=
        List.mem_append_right _ List.mem_cons_self
      have hprev := (h.sub _ hthis ps (by simp)).1
      rw [if_pos (h.compat _ hthis (by simp) ps (by simp)).1, if_neg (not_not.mpr hprev)]
      exact wp_unlinkMember h ne

end EventTransfer
