import EventTransfer.StationChain

/-!
# Well-formed station chains

A chain of stations is a list of *groups*: the stations of the main list, each with the
stations behind it in its group of parallel stations.  `ChainOk s gs` says that the links
of the table `s` are those of the chain `gs`; `Forward s gs` is what is left of it when
only the forward links are looked at.

The lemmas of this module are the five changes of a chain: a station enters the main list
or a group, and it leaves as a station alone, as the head of a group, or from inside a
group.  Each says which links of the new table must be as before and which must have
moved, and is an application of the splicing lemmas of `LinkedHeap.Seg`.
-/

namespace EventTransfer

open LinkedHeap

/-- A station of the main list, and the stations behind it in its group. -/
abbrev Group := ℕ × List ℕ

/-- The stations of the main list. -/
def heads (gs : List Group) : List ℕ := gs.map Prod.fst

/-- All stations of a chain. -/
def members (gs : List Group) : List ℕ := gs.flatMap fun g => g.1 :: g.2

@[simp] theorem heads_nil : heads [] = [] := rfl

@[simp] theorem heads_cons (g : Group) (gs : List Group) : heads (g :: gs) = g.1 :: heads gs := rfl

@[simp] theorem heads_append (us vs : List Group) :
    heads (us ++ vs) = heads us ++ heads vs := List.map_append

@[simp] theorem members_nil : members [] = [] := rfl

@[simp] theorem members_cons (g : Group) (gs : List Group) :
    members (g :: gs) = g.1 :: (g.2 ++ members gs) := rfl

@[simp] theorem members_append (us vs : List Group) :
    members (us ++ vs) = members us ++ members vs := List.flatMap_append

theorem mem_members {gs : List Group} {i : ℕ} :
    i ∈ members gs ↔ ∃ g ∈ gs, i ∈ g.1 :: g.2 := List.mem_flatMap

theorem heads_sublist_members (gs : List Group) : (heads gs).Sublist (members gs) := by
  induction gs with
  | nil => exact List.Sublist.refl _
  | cons g gs ih => exact (ih.trans (List.sublist_append_right _ _)).cons_cons _

theorem mem_members_of_mem_heads {gs : List Group} {i : ℕ} (h : i ∈ heads gs) :
    i ∈ members gs := (heads_sublist_members gs).subset h

/-- In a chain without repetitions a station behind a head is not a head. -/
theorem notMem_heads {gs : List Group} {g : Group} {i : ℕ} (hnd : (members gs).Nodup)
    (hg : g ∈ gs) (hi : i ∈ g.2) : i ∉ heads gs := by
  induction gs with
  | nil => exact absurd hg (by simp)
  | cons k gs ih =>
      rw [members_cons, List.nodup_cons, List.nodup_append, List.mem_append, not_or] at hnd
      obtain ⟨⟨hk1, hk2⟩, -, hgs, hdis⟩ := hnd
      rw [heads_cons, List.mem_cons, not_or]
      rcases List.mem_cons.mp hg with rfl | hg
      · refine ⟨ne_of_mem_of_not_mem hi hk1, fun hm => ?_⟩
        exact hdis i hi i (mem_members_of_mem_heads hm) rfl
      · have him : i ∈ members gs := mem_members.mpr ⟨g, hg, List.mem_cons_of_mem _ hi⟩
        exact ⟨ne_of_mem_of_not_mem him hk2, ih hgs hg⟩

/-- **The links of the table are those of the chain `gs`.**

The main list begins with GRAND_CENTRAL, which has no group, and ends at `stat_tail`; a
station behind a head has no links into the main list; and a group with more than one
station has parallel stations of compatible configurations only. -/
structure ChainOk (s : Stations) (gs : List Group) : Prop where
  gc : gs.head? = some (0, [])
  main : Seg s.next s.prev none (heads gs) none
  tail : s.statTail = (heads gs).getLast?
  group : ∀ g ∈ gs, Seg s.nextparallel s.prevparallel none (g.1 :: g.2) none
  sub : ∀ g ∈ gs, ∀ i ∈ g.2, s.prev i = none ∧ s.next i = none
  compat : ∀ g ∈ gs, g.2 ≠ [] → ∀ i ∈ g.1 :: g.2, s.isParallel i = true ∧
    stationCompareParallel (s.config g.1) (s.config i) = true
  nodup : (members gs).Nodup

/-- **What the forward links show of the chain `gs`**; the links inside the group of a
serial station are not looked at.  GRAND_CENTRAL, which no routine moves, has no links but
`next`. -/
structure Forward (s : Stations) (gs : List Group) : Prop where
  gc : gs.head? = some (0, [])
  gcPrev : s.prev 0 = none
  gcGroup : s.nextparallel 0 = none ∧ s.prevparallel 0 = none
  main : Fwd s.next (heads gs) none
  group : ∀ g ∈ gs, if s.isParallel g.1 then Fwd s.nextparallel (g.1 :: g.2) none else g.2 = []
  compat : ∀ g ∈ gs, g.2 ≠ [] → ∀ i ∈ g.1 :: g.2, s.isParallel i = true ∧
    stationCompareParallel (s.config g.1) (s.config i) = true
  nodup : (members gs).Nodup

variable {s t : Stations} {gs us vs : List Group} {ps : ℕ}

theorem isParallel_congr (hcfg : t.config = s.config) : t.isParallel = s.isParallel := by
  funext i
  rw [Stations.isParallel, Stations.isParallel, hcfg]

/-- GRAND_CENTRAL is the first of the main list. -/
theorem ChainOk.heads_eq (h : ChainOk s gs) : ∃ rest, gs = (0, []) :: rest := by
  cases gs with
  | nil => exact absurd h.gc (by simp)
  | cons g rest =>
      have hg : g = (0, []) := by simpa using h.gc
      exact ⟨rest, by rw [hg]⟩

/-- It is not met again. -/
theorem ChainOk.ne_zero (h : ChainOk s (us ++ vs)) (hus : us ≠ []) {i : ℕ}
    (hi : i ∈ members vs) : i ≠ 0 := by
  obtain ⟨rest, hrest⟩ := h.heads_eq
  obtain ⟨u, us, rfl⟩ := List.exists_cons_of_ne_nil hus
  rw [List.cons_append, List.cons.injEq] at hrest
  obtain ⟨rfl, rfl⟩ := hrest
  have hnd := h.nodup
  rw [List.cons_append, members_cons, List.nil_append, List.nodup_cons, members_append] at hnd
  exact ne_of_mem_of_not_mem (List.mem_append_right _ hi) hnd.1

theorem ChainOk.forward (h : ChainOk s gs) : Forward s gs := by
  have hgc : s.prev 0 = none ∧ s.nextparallel 0 = none ∧ s.prevparallel 0 = none := by
    obtain ⟨rest, rfl⟩ := h.heads_eq
    have hgroup := seg_singleton.mp (h.group (0, []) List.mem_cons_self)
    exact ⟨h.main.1, hgroup.2, hgroup.1⟩
  refine ⟨h.gc, hgc.1, hgc.2, h.main.fwd, fun g hg => ?_, h.compat, h.nodup⟩
  cases hpar : s.isParallel g.1 with
  | true => exact (h.group g hg).fwd
  | false =>
      by_contra hne
      have := (h.compat g hg hne g.1 (by simp)).1
      simp [hpar] at this

/-- **Frame** for the forward links; the links inside the group of a serial station are not
looked at. -/
theorem Forward.congr_parallel (h : Forward s gs) (hcfg : t.config = s.config)
    (hnext : ∀ i ∈ heads gs, t.next i = s.next i) (hnp0 : t.nextparallel 0 = s.nextparallel 0)
    (hpar : ∀ g ∈ gs, s.isParallel g.1 = true → ∀ i ∈ g.1 :: g.2,
      t.nextparallel i = s.nextparallel i)
    (hprev0 : t.prev 0 = s.prev 0) (hpp0 : t.prevparallel 0 = s.prevparallel 0) :
    Forward t gs := by
  have hip := isParallel_congr hcfg
  refine ⟨h.gc, hprev0.trans h.gcPrev, ⟨hnp0.trans h.gcGroup.1, hpp0.trans h.gcGroup.2⟩,
    h.main.congr hnext, fun g hg => ?_, ?_, h.nodup⟩
  · have hgroup := h.group g hg
    rw [hip]
    split
    case isTrue hp =>
      rw [if_pos hp] at hgroup
      exact hgroup.congr (hpar g hg hp)
    case isFalse hp =>
      rw [if_neg hp] at hgroup
      exact hgroup
  · rw [hip, hcfg]
    exact h.compat

@[inherit_doc Forward.congr_parallel]
theorem Forward.congr (h : Forward s gs) (hcfg : t.config = s.config)
    (hnext : ∀ i ∈ heads gs, t.next i = s.next i)
    (hpar : ∀ i ∈ members gs, t.nextparallel i = s.nextparallel i)
    (hprev0 : t.prev 0 = s.prev 0) (hpp0 : t.prevparallel 0 = s.prevparallel 0) :
    Forward t gs := by
  have hmem0 : 0 ∈ members gs :=
    mem_members.mpr ⟨(0, []), List.mem_of_head? h.gc, List.mem_cons_self⟩
  exact h.congr_parallel hcfg hnext (hpar 0 hmem0)
    (fun g hg _ i hi => hpar i (mem_members.mpr ⟨g, hg, hi⟩)) hprev0 hpp0

/-- **Frame** for a chain. -/
theorem ChainOk.congr (h : ChainOk s gs) (hcfg : ∀ i ∈ members gs, t.config i = s.config i)
    (hnext : ∀ i ∈ members gs, t.next i = s.next i)
    (hprev : ∀ i ∈ members gs, t.prev i = s.prev i)
    (hnp : ∀ i ∈ members gs, t.nextparallel i = s.nextparallel i)
    (hpp : ∀ i ∈ members gs, t.prevparallel i = s.prevparallel i)
    (htail : t.statTail = s.statTail) : ChainOk t gs := by
  have hmem : ∀ g ∈ gs, ∀ i ∈ g.1 :: g.2, i ∈ members gs :=
    fun g hg i hi => mem_members.mpr ⟨g, hg, hi⟩
  refine ⟨h.gc, h.main.congr ?_ ?_, htail.trans h.tail, fun g hg => (h.group g hg).congr ?_ ?_,
    fun g hg i hi => ?_, fun g hg hne i hi => ?_, h.nodup⟩
  · exact fun i hi => hnext i (mem_members_of_mem_heads hi)
  · exact fun i hi => hprev i (mem_members_of_mem_heads hi)
  · exact fun i hi => hnp i (hmem g hg i hi)
  · exact fun i hi => hpp i (hmem g hg i hi)
  · have him := hmem g hg i (List.mem_cons_of_mem _ hi)
    rw [hprev i him, hnext i him]
    exact h.sub g hg i hi
  · rw [Stations.isParallel, hcfg i (hmem g hg i hi), hcfg g.1 (hmem g hg g.1 (by simp))]
    exact h.compat g hg hne i hi

/-! ## Entering the chain -/

/-- Different groups have different stations. -/
theorem members_disjoint {k : Group} (hnd : (members (us ++ k :: vs)).Nodup) {g : Group}
    (hg : g ∈ us ∨ g ∈ vs) {i : ℕ} (hi : i ∈ g.1 :: g.2) : i ∉ k.1 :: k.2 := by
  intro hk
  rw [members_append, members_cons, ← List.cons_append, List.nodup_append, List.nodup_append] at hnd
  obtain ⟨-, ⟨-, -, hkv⟩, huk⟩ := hnd
  rcases hg with hg | hg
  · exact huk i (mem_members.mpr ⟨g, hg, hi⟩) i (List.mem_append_left _ hk) rfl
  · exact hkv i hk i (mem_members.mpr ⟨g, hg, hi⟩) rfl

theorem group_unique (hnd : (members us).Nodup) {g k : Group} (hg : g ∈ us) (hk : k ∈ us) {i : ℕ}
    (hig : i ∈ g.1 :: g.2) (hik : i ∈ k.1 :: k.2) : g = k := by
  obtain ⟨xs, ys, rfl⟩ := List.append_of_mem hk
  rw [List.mem_append, List.mem_cons] at hg
  rcases hg with hg | rfl | hg
  · exact absurd hik (members_disjoint hnd (Or.inl hg) hig)
  · rfl
  · exact absurd hik (members_disjoint hnd (Or.inr hg) hig)

/-- A chain that has a new group in the middle keeps its first group. -/
theorem head?_append_of_ne_nil {us : List Group} (hus : us ≠ []) (vs ws : List Group) :
    (us ++ vs).head? = (us ++ ws).head? := by
  cases us with
  | nil => exact absurd rfl hus
  | cons u us => simp

/-- **A station enters the main list** between `us` and `vs`. -/
theorem ChainOk.insertMain (h : ChainOk s (us ++ vs)) (hus : us ≠ [])
    (hps : ps ∉ members (us ++ vs)) (hcfg : t.config = s.config)
    (hnext : ∀ b ∈ members (us ++ vs),
      t.next b = if (heads us).getLast? = some b then some ps else s.next b)
    (hprev : ∀ b ∈ members (us ++ vs),
      t.prev b = if (heads vs).head? = some b then some ps else s.prev b)
    (hnp : t.nextparallel = s.nextparallel) (hpp : t.prevparallel = s.prevparallel)
    (hnextps : t.next ps = (heads vs).head?) (hprevps : t.prev ps = (heads us).getLast?)
    (hnpps : s.nextparallel ps = none) (hppps : s.prevparallel ps = none)
    (htail : t.statTail = (heads (us ++ (ps, []) :: vs)).getLast?) :
    ChainOk t (us ++ (ps, []) :: vs) := by
  have hip := isParallel_congr hcfg
  have hheads : ∀ b ∈ heads us ++ heads vs, b ∈ members (us ++ vs) := by
    intro b hb
    rw [← heads_append] at hb
    exact mem_members_of_mem_heads hb
  have hmain := h.main
  rw [heads_append] at hmain
  refine ⟨?_, ?_, htail, ?_, ?_, ?_, ?_⟩
  · rw [← head?_append_of_ne_nil hus vs]
    exact h.gc
  · rw [heads_append, heads_cons]
    refine hmain.insert ?_ ?_ ?_ ?_ ?_
    · rw [← heads_append]
      exact h.nodup.sublist (heads_sublist_members _)
    · exact fun b hb => hnext b (hheads b hb)
    · exact fun b hb => hprev b (hheads b hb)
    · rw [hnextps, Option.or_none]
    · rw [hprevps, Option.or_none]
  · intro g hg
    rw [hnp, hpp]
    rcases List.mem_append.mp hg with hg | hg
    · exact h.group g (List.mem_append_left _ hg)
    · rcases List.mem_cons.mp hg with rfl | hg
      · exact seg_singleton.mpr ⟨hppps, hnpps⟩
      · exact h.group g (List.mem_append_right _ hg)
  · intro g hg i hi
    have hg' : g ∈ us ++ vs := by
      rcases List.mem_append.mp hg with hg | hg
      · exact List.mem_append_left _ hg
      · rcases List.mem_cons.mp hg with rfl | hg
        · exact absurd hi (by simp)
        · exact List.mem_append_right _ hg
    have him : i ∈ members (us ++ vs) := mem_members.mpr ⟨g, hg', List.mem_cons_of_mem _ hi⟩
    have hih := notMem_heads h.nodup hg' hi
    rw [heads_append, List.mem_append, not_or] at hih
    rw [hnext i him, hprev i him, if_neg, if_neg]
    · exact h.sub g hg' i hi
    · exact fun hl => hih.1 (List.mem_of_getLast? hl)
    · exact fun hf => hih.2 (List.mem_of_head? hf)
  · intro g hg hne
    rw [hip, hcfg]
    rcases List.mem_append.mp hg with hg | hg
    · exact h.compat g (List.mem_append_left _ hg) hne
    · rcases List.mem_cons.mp hg with rfl | hg
      · exact absurd rfl hne
      · exact h.compat g (List.mem_append_right _ hg) hne
  · have hnd := h.nodup
    rw [members_append] at hnd hps
    rw [members_append, members_cons, List.nil_append, List.nodup_middle, List.nodup_cons]
    exact ⟨hps, hnd⟩

/-- **A station enters a group** between `xs` and `ys`, behind the head `hd`. -/
theorem ChainOk.insertMember {hd : ℕ} {xs ys : List ℕ}
    (h : ChainOk s (us ++ (hd, xs ++ ys) :: vs)) (hus : us ≠ [])
    (hps : ps ∉ members (us ++ (hd, xs ++ ys) :: vs)) (hcfg : t.config = s.config)
    (hpar : s.isParallel hd = true) (hparps : s.isParallel ps = true)
    (hcmp : stationCompareParallel (s.config hd) (s.config ps) = true)
    (hnp : ∀ b ∈ members (us ++ (hd, xs ++ ys) :: vs),
      t.nextparallel b = if (hd :: xs).getLast? = some b then some ps else s.nextparallel b)
    (hpp : ∀ b ∈ members (us ++ (hd, xs ++ ys) :: vs),
      t.prevparallel b = if ys.head? = some b then some ps else s.prevparallel b)
    (hnpps : t.nextparallel ps = ys.head?) (hppps : t.prevparallel ps = (hd :: xs).getLast?)
    (hnext : t.next = s.next) (hprev : t.prev = s.prev)
    (hnextps : s.next ps = none) (hprevps : s.prev ps = none)
    (htail : t.statTail = s.statTail) :
    ChainOk t (us ++ (hd, xs ++ ps :: ys) :: vs) := by
  have hip := isParallel_congr hcfg
  have hheads : heads (us ++ (hd, xs ++ ps :: ys) :: vs) = heads (us ++ (hd, xs ++ ys) :: vs) := by
    simp
  have hold : ∀ g ∈ us ++ (hd, xs ++ ps :: ys) :: vs,
      (g ∈ us ∨ g ∈ vs) ∧ g ∈ us ++ (hd, xs ++ ys) :: vs ∨ g = (hd, xs ++ ps :: ys) := by
    intro g hg
    rcases List.mem_append.mp hg with hg | hg
    · exact Or.inl ⟨Or.inl hg, List.mem_append_left _ hg⟩
    · rcases List.mem_cons.mp hg with rfl | hg
      · exact Or.inr rfl
      · exact Or.inl ⟨Or.inr hg, List.mem_append_right _ (List.mem_cons_of_mem _ hg)⟩
  have hthis : (hd, xs ++ ys) ∈ us ++ (hd, xs ++ ys) :: vs :=
    List.mem_append_right _ List.mem_cons_self
  have hgrp : ∀ b ∈ (hd :: xs) ++ ys, b ∈ members (us ++ (hd, xs ++ ys) :: vs) :=
    fun b hb => mem_members.mpr ⟨_, hthis, hb⟩
  refine ⟨?_, ?_, ?_, ?_, ?_, ?_, ?_⟩
  · rw [head?_append_of_ne_nil hus]
    exact h.gc
  · rw [hheads, hnext, hprev]
    exact h.main
  · rw [hheads, htail]
    exact h.tail
  · intro g hg
    rcases hold g hg with ⟨hother, hg⟩ | rfl
    · -- a group that is not concerned
      refine (h.group g hg).congr (fun b hb => ?_) fun b hb => ?_
      · have hbm := members_disjoint h.nodup hother hb
        rw [hnp b (mem_members.mpr ⟨g, hg, hb⟩), if_neg]
        exact fun hl => hbm (List.mem_append_left ys (List.mem_of_getLast? hl))
      · have hbm := members_disjoint h.nodup hother hb
        rw [hpp b (mem_members.mpr ⟨g, hg, hb⟩), if_neg]
        exact fun hf => hbm (List.mem_append_right (hd :: xs) (List.mem_of_head? hf))
    · have hseg : Seg s.nextparallel s.prevparallel none ((hd :: xs) ++ ys) none :=
        h.group _ hthis
      have hnd : ((hd :: xs) ++ ys).Nodup := by
        have hnd := h.nodup
        rw [members_append, members_cons, ← List.cons_append, List.nodup_append,
          List.nodup_append] at hnd
        exact hnd.2.1.1
      exact hseg.insert hnd (fun b hb => hnp b (hgrp b hb)) (fun b hb => hpp b (hgrp b hb))
        (by rw [hnpps, Option.or_none]) (by rw [hppps, Option.or_none])
  · intro g hg i hi
    rw [hnext, hprev]
    rcases hold g hg with ⟨-, hg⟩ | rfl
    · exact h.sub g hg i hi
    · rcases List.mem_append.mp hi with hi | hi
      · exact h.sub _ hthis i (List.mem_append_left _ hi)
      · rcases List.mem_cons.mp hi with rfl | hi
        · exact ⟨hprevps, hnextps⟩
        · exact h.sub _ hthis i (List.mem_append_right _ hi)
  · intro g hg hne i hi
    rw [hip, hcfg]
    rcases hold g hg with ⟨-, hg⟩ | rfl
    · exact h.compat g hg hne i hi
    · rcases List.mem_cons.mp hi with rfl | hi
      · exact ⟨hpar, stationCompareParallel_refl _⟩
      rcases List.mem_append.mp hi with hi | hi
      · exact h.compat _ hthis (by simp [List.ne_nil_of_mem hi]) i
          (List.mem_cons_of_mem _ (List.mem_append_left _ hi))
      · rcases List.mem_cons.mp hi with rfl | hi
        · exact ⟨hparps, hcmp⟩
        · exact h.compat _ hthis (by simp [List.ne_nil_of_mem hi]) i
            (List.mem_cons_of_mem _ (List.mem_append_right _ hi))
  · have hnd := h.nodup
    have e1 : members (us ++ (hd, xs ++ ys) :: vs) =
        (members us ++ hd :: xs) ++ (ys ++ members vs) := by simp
    have e2 : members (us ++ (hd, xs ++ ps :: ys) :: vs) =
        (members us ++ hd :: xs) ++ ps :: (ys ++ members vs) := by simp
    rw [e1] at hnd hps
    rw [e2, List.nodup_middle, List.nodup_cons]
    exact ⟨hps, hnd⟩

/-! ## Leaving the chain -/

/-- **A station alone leaves the main list.** -/
theorem ChainOk.removeMain (h : ChainOk s (us ++ (ps, []) :: vs)) (hus : us ≠ [])
    (hcfg : t.config = s.config)
    (hnext : ∀ b ∈ members (us ++ vs),
      t.next b = if (heads us).getLast? = some b then (heads vs).head? else s.next b)
    (hprev : ∀ b ∈ members (us ++ vs),
      t.prev b = if (heads vs).head? = some b then (heads us).getLast? else s.prev b)
    (hnp : ∀ b ∈ members (us ++ vs), t.nextparallel b = s.nextparallel b)
    (hpp : ∀ b ∈ members (us ++ vs), t.prevparallel b = s.prevparallel b)
    (htail : t.statTail = (heads (us ++ vs)).getLast?) : ChainOk t (us ++ vs) := by
  have hip := isParallel_congr hcfg
  have hold : ∀ g ∈ us ++ vs, g ∈ us ++ (ps, []) :: vs := by
    intro g hg
    rcases List.mem_append.mp hg with hg | hg
    · exact List.mem_append_left _ hg
    · exact List.mem_append_right _ (List.mem_cons_of_mem _ hg)
  have hnd : (members (us ++ vs)).Nodup := by
    have hnd := h.nodup
    rw [members_append, members_cons, List.nil_append, List.nodup_middle, List.nodup_cons] at hnd
    rw [members_append]
    exact hnd.2
  refine ⟨?_, ?_, htail, ?_, ?_, ?_, hnd⟩
  · rw [head?_append_of_ne_nil hus vs]
    exact h.gc
  · have hmain := h.main
    have hmem : ∀ b ∈ heads us ++ heads vs, b ∈ members (us ++ vs) := by
      intro b hb
      rw [← heads_append] at hb
      exact mem_members_of_mem_heads hb
    rw [heads_append, heads_cons] at hmain
    rw [heads_append]
    refine hmain.remove ?_ ?_ ?_
    · exact (h.nodup.sublist (heads_sublist_members _)).sublist (by simp)
    · simpa only [Option.or_none] using fun b hb => hnext b (hmem b hb)
    · simpa only [Option.or_none] using fun b hb => hprev b (hmem b hb)
  · intro g hg
    refine (h.group g (hold g hg)).congr (fun b hb => hnp b ?_) fun b hb => hpp b ?_
    · exact mem_members.mpr ⟨g, hg, hb⟩
    · exact mem_members.mpr ⟨g, hg, hb⟩
  · intro g hg i hi
    have him : i ∈ members (us ++ vs) := mem_members.mpr ⟨g, hg, List.mem_cons_of_mem _ hi⟩
    have hih := notMem_heads hnd hg hi
    rw [heads_append, List.mem_append, not_or] at hih
    rw [hnext i him, hprev i him, if_neg, if_neg]
    · exact h.sub g (hold g hg) i hi
    · exact fun hl => hih.1 (List.mem_of_getLast? hl)
    · exact fun hf => hih.2 (List.mem_of_head? hf)
  · rw [hip, hcfg]
    exact fun g hg => h.compat g (hold g hg)

/-- **The head of a group leaves**, and the next station of the group becomes its head. -/
theorem ChainOk.removeHead {m : ℕ} {ms : List ℕ} (h : ChainOk s (us ++ (ps, m :: ms) :: vs))
    (hus : us ≠ []) (hcfg : t.config = s.config)
    (hnext : ∀ b ∈ members (us ++ (m, ms) :: vs), b ≠ m →
      t.next b = if (heads us).getLast? = some b then some m else s.next b)
    (hprev : ∀ b ∈ members (us ++ (m, ms) :: vs), b ≠ m →
      t.prev b = if (heads vs).head? = some b then some m else s.prev b)
    (hnextm : t.next m = (heads vs).head?) (hprevm : t.prev m = (heads us).getLast?)
    (hnp : ∀ b ∈ members (us ++ (m, ms) :: vs), t.nextparallel b = s.nextparallel b)
    (hpp : ∀ b ∈ members (us ++ (m, ms) :: vs), b ≠ m → t.prevparallel b = s.prevparallel b)
    (hppm : t.prevparallel m = none)
    (htail : t.statTail = (heads (us ++ (m, ms) :: vs)).getLast?) :
    ChainOk t (us ++ (m, ms) :: vs) := by
  have hip := isParallel_congr hcfg
  have hold : ∀ g ∈ us ++ (m, ms) :: vs,
      (g ∈ us ∨ g ∈ vs) ∧ g ∈ us ++ (ps, m :: ms) :: vs ∨ g = (m, ms) := by
    intro g hg
    rcases List.mem_append.mp hg with hg | hg
    · exact Or.inl ⟨Or.inl hg, List.mem_append_left _ hg⟩
    · rcases List.mem_cons.mp hg with rfl | hg
      · exact Or.inr rfl
      · exact Or.inl ⟨Or.inr hg, List.mem_append_right _ (List.mem_cons_of_mem _ hg)⟩
  have hthis : (ps, m :: ms) ∈ us ++ (ps, m :: ms) :: vs :=
    List.mem_append_right _ List.mem_cons_self
  have hnd : (members (us ++ (m, ms) :: vs)).Nodup := by
    have hnd := h.nodup
    rw [members_append, members_cons, List.cons_append, List.nodup_middle, List.nodup_cons] at hnd
    rw [members_append, members_cons]
    exact hnd.2
  refine ⟨?_, ?_, htail, ?_, ?_, ?_, hnd⟩
  · rw [head?_append_of_ne_nil hus]
    exact h.gc
  · have hmain := h.main
    rw [heads_append, heads_cons] at hmain
    have hndh : (heads us ++ m :: heads vs).Nodup := by
      have := hnd.sublist (heads_sublist_members _)
      rwa [heads_append, heads_cons] at this
    have hmem : ∀ b ∈ heads us ++ heads vs, b ∈ members (us ++ (m, ms) :: vs) ∧ b ≠ m := by
      intro b hb
      rw [List.nodup_middle, List.nodup_cons] at hndh
      refine ⟨mem_members_of_mem_heads ?_, ne_of_mem_of_not_mem hb hndh.1⟩
      rw [heads_append, heads_cons]
      rcases List.mem_append.mp hb with hb | hb
      · exact List.mem_append_left _ hb
      · exact List.mem_append_right _ (List.mem_cons_of_mem _ hb)
    rw [heads_append, heads_cons]
    refine hmain.replace ?_ ?_ ?_ ?_ ?_
    · have := h.nodup.sublist (heads_sublist_members _)
      rwa [heads_append, heads_cons] at this
    · exact fun b hb => hnext b (hmem b hb).1 (hmem b hb).2
    · exact fun b hb => hprev b (hmem b hb).1 (hmem b hb).2
    · rw [hnextm, Option.or_none]
    · rw [hprevm, Option.or_none]
  · intro g hg
    rcases hold g hg with ⟨hother, hg'⟩ | rfl
    · refine (h.group g hg').congr (fun b hb => hnp b ?_) fun b hb => hpp b ?_ ?_
      · exact mem_members.mpr ⟨g, hg, hb⟩
      · exact mem_members.mpr ⟨g, hg, hb⟩
      · rintro rfl
        exact members_disjoint hnd hother hb List.mem_cons_self
    · have hseg := h.group _ hthis
      obtain ⟨-, -, hseg⟩ := hseg
      have hmm : ∀ b ∈ m :: ms, b ∈ members (us ++ (m, ms) :: vs) :=
        fun b hb => mem_members.mpr ⟨_, hg, hb⟩
      have hndm : (m :: ms).Nodup := by
        rw [members_append, members_cons, ← List.cons_append, List.nodup_append,
          List.nodup_append] at hnd
        exact hnd.2.1.1
      refine hseg.set_first hndm (fun b hb => hnp b (hmm b hb)) fun b hb => ?_
      by_cases hbm : b = m
      · rw [hbm, hppm, List.head?_cons, if_pos rfl]
      · rw [hpp b (hmm b hb) hbm, List.head?_cons, if_neg (by simpa using Ne.symm hbm)]
  · intro g hg i hi
    have him : i ∈ members (us ++ (m, ms) :: vs) :=
      mem_members.mpr ⟨g, hg, List.mem_cons_of_mem _ hi⟩
    have hih := notMem_heads hnd hg hi
    rw [heads_append, heads_cons, List.mem_append, List.mem_cons, not_or, not_or] at hih
    obtain ⟨hiu, hneq, hiv⟩ := hih
    rw [hnext i him hneq, hprev i him hneq, if_neg, if_neg]
    · rcases hold g hg with ⟨-, hg⟩ | rfl
      · exact h.sub g hg i hi
      · exact h.sub _ hthis i (List.mem_cons_of_mem _ hi)
    · exact fun hl => hiu (List.mem_of_getLast? hl)
    · exact fun hf => hiv (List.mem_of_head? hf)
  · intro g hg hne i hi
    rw [hip, hcfg]
    rcases hold g hg with ⟨-, hg⟩ | rfl
    · exact h.compat g hg hne i hi
    · have hm := h.compat _ hthis (by simp) m (by simp)
      have hi := h.compat _ hthis (by simp) i (List.mem_cons_of_mem _ hi)
      exact ⟨hi.1, stationCompareParallel_trans (stationCompareParallel_symm hm.2) hi.2⟩

/-- **A station leaves a group** from behind its head. -/
theorem ChainOk.removeMember {hd : ℕ} {xs ys : List ℕ}
    (h : ChainOk s (us ++ (hd, xs ++ ps :: ys) :: vs)) (hus : us ≠ [])
    (hcfg : t.config = s.config)
    (hnp : ∀ b ∈ members (us ++ (hd, xs ++ ys) :: vs),
      t.nextparallel b = if (hd :: xs).getLast? = some b then ys.head? else s.nextparallel b)
    (hpp : ∀ b ∈ members (us ++ (hd, xs ++ ys) :: vs),
      t.prevparallel b = if ys.head? = some b then (hd :: xs).getLast? else s.prevparallel b)
    (hnext : t.next = s.next) (hprev : t.prev = s.prev) (htail : t.statTail = s.statTail) :
    ChainOk t (us ++ (hd, xs ++ ys) :: vs) := by
  have hip := isParallel_congr hcfg
  have hheads : heads (us ++ (hd, xs ++ ys) :: vs) = heads (us ++ (hd, xs ++ ps :: ys) :: vs) := by
    simp
  have hold : ∀ g ∈ us ++ (hd, xs ++ ys) :: vs,
      (g ∈ us ∨ g ∈ vs) ∧ g ∈ us ++ (hd, xs ++ ps :: ys) :: vs ∨ g = (hd, xs ++ ys) := by
    intro g hg
    rcases List.mem_append.mp hg with hg | hg
    · exact Or.inl ⟨Or.inl hg, List.mem_append_left _ hg⟩
    · rcases List.mem_cons.mp hg with rfl | hg
      · exact Or.inr rfl
      · exact Or.inl ⟨Or.inr hg, List.mem_append_right _ (List.mem_cons_of_mem _ hg)⟩
  have hthis : (hd, xs ++ ps :: ys) ∈ us ++ (hd, xs ++ ps :: ys) :: vs :=
    List.mem_append_right _ List.mem_cons_self
  have hsub : ∀ b ∈ xs ++ ys, b ∈ xs ++ ps :: ys := by
    intro b hb
    rcases List.mem_append.mp hb with hb | hb
    · exact List.mem_append_left _ hb
    · exact List.mem_append_right _ (List.mem_cons_of_mem _ hb)
  have hnd : (members (us ++ (hd, xs ++ ys) :: vs)).Nodup := by
    have hnd := h.nodup
    have e1 : members (us ++ (hd, xs ++ ps :: ys) :: vs) =
        (members us ++ hd :: xs) ++ ps :: (ys ++ members vs) := by simp
    have e2 : members (us ++ (hd, xs ++ ys) :: vs) =
        (members us ++ hd :: xs) ++ (ys ++ members vs) := by simp
    rw [e1, List.nodup_middle, List.nodup_cons] at hnd
    rw [e2]
    exact hnd.2
  refine ⟨?_, ?_, ?_, ?_, ?_, ?_, hnd⟩
  · rw [head?_append_of_ne_nil hus]
    exact h.gc
  · rw [hheads, hnext, hprev]
    exact h.main
  · rw [hheads, htail]
    exact h.tail
  · intro g hg
    rcases hold g hg with ⟨hother, hg'⟩ | rfl
    · -- a group that is not concerned
      refine (h.group g hg').congr (fun b hb => ?_) fun b hb => ?_
      · have hbm := members_disjoint hnd hother hb
        rw [hnp b (mem_members.mpr ⟨g, hg, hb⟩), if_neg]
        exact fun hl => hbm (List.mem_append_left ys (List.mem_of_getLast? hl))
      · have hbm := members_disjoint hnd hother hb
        rw [hpp b (mem_members.mpr ⟨g, hg, hb⟩), if_neg]
        exact fun hf => hbm (List.mem_append_right (hd :: xs) (List.mem_of_head? hf))
    · have hseg : Seg s.nextparallel s.prevparallel none ((hd :: xs) ++ ps :: ys) none :=
        h.group _ hthis
      have hndg : ((hd :: xs) ++ ps :: ys).Nodup := by
        have hnd := h.nodup
        rw [members_append, members_cons, ← List.cons_append, List.nodup_append,
          List.nodup_append] at hnd
        exact hnd.2.1.1
      have hgrp : ∀ b ∈ (hd :: xs) ++ ys, b ∈ members (us ++ (hd, xs ++ ys) :: vs) :=
        fun b hb => mem_members.mpr ⟨_, hg, hb⟩
      refine hseg.remove hndg ?_ ?_
      · simpa only [Option.or_none] using fun b hb => hnp b (hgrp b hb)
      · simpa only [Option.or_none] using fun b hb => hpp b (hgrp b hb)
  · intro g hg i hi
    rw [hnext, hprev]
    rcases hold g hg with ⟨-, hg⟩ | rfl
    · exact h.sub g hg i hi
    · exact h.sub _ hthis i (hsub i hi)
  · intro g hg hne i hi
    rw [hip, hcfg]
    rcases hold g hg with ⟨-, hg⟩ | rfl
    · exact h.compat g hg hne i hi
    · refine h.compat _ hthis (by simp) i ?_
      rcases List.mem_cons.mp hi with rfl | hi
      · exact List.mem_cons_self
      · exact List.mem_cons_of_mem _ (hsub i hi)

end EventTransfer
