import EventTransfer.StationRun

/-!
# The repair of the station lists

When a process has died with the station lock held, the ET system runs
`et_fix_linkedlist` and `et_fix_stations`.  The first rebuilds all other links from the
forward ones; the second gives up the stations that are in no list, and corrects the
count of stations.

`Forward.fixLinkedlist_eq` says that the first is right on every table whose forward links
show a chain, which by `StationLink` is every table a dead process can leave.
-/

namespace EventTransfer

open LinkedHeap StoreProgram StoreProgram.Prog

variable {cfg : SysConfig} {s t u : Stations} {gs gs' vs : List Group} {ps : ℕ}

/-! ## `et_fix_linkedlist` -/

/-- The loop along a group: `pstat` is the station reached. -/
def fixGroup : ℕ → ℕ → Stations → Option Stations
  | 0, _, _ => none
  | fuel + 1, pstat, s =>
      match s.nextparallel pstat with
      | none => some s
      | some nextparallel =>
          fixGroup fuel nextparallel
            { s with prevparallel := assign s.prevparallel (some nextparallel) (some pstat)
                     prev := assign s.prev (some nextparallel) none
                     next := assign s.next (some nextparallel) none }

/-- What the loop along the main list does to the station `pnext` behind `ps`. -/
def fixStation (fuel ps pnext : ℕ) (s : Stations) : Option Stations :=
  let s := { s with prev := assign s.prev (some pnext) (some ps) }
  if s.isParallel pnext then
    fixGroup fuel pnext { s with prevparallel := assign s.prevparallel (some pnext) none }
  else
    some { s with prevparallel := assign s.prevparallel (some pnext) none
                  nextparallel := assign s.nextparallel (some pnext) none }

/-- The loop along the main list: `ps` is the station reached. -/
def fixMain (groupFuel : ℕ) : ℕ → ℕ → Stations → Option Stations
  | 0, _, _ => none
  | fuel + 1, ps, s =>
      match s.next ps with
      | none => some { s with statTail := some ps }
      | some pnext => (fixStation groupFuel ps pnext s).bind (fixMain groupFuel fuel pnext)

/-- `et_fix_linkedlist`; `none` if a loop exceeds `fuel` rounds. -/
def fixLinkedlist (fuel : ℕ) (s : Stations) : Option Stations := fixMain fuel fuel 0 s

/-- The links of the stations outside `xs` are as they were. -/
def LinksOutside (xs : List ℕ) (s t : Stations) : Prop :=
  ∀ i ∉ xs, t.next i = s.next i ∧ t.prev i = s.prev i ∧ t.nextparallel i = s.nextparallel i ∧
    t.prevparallel i = s.prevparallel i

/-- **Along a group** the backward links are rebuilt, and its stations lose their links
into the main list. -/
theorem fixGroup_eq {fuel pstat : ℕ} {ys : List ℕ} (h : Fwd s.nextparallel (pstat :: ys) none)
    (hnd : (pstat :: ys).Nodup) (hfuel : ys.length < fuel) :
    ∃ u, fixGroup fuel pstat s = some u ∧ LinksOnly s u ∧ u.statTail = s.statTail ∧
      LinksOutside ys s u ∧ u.nextparallel = s.nextparallel ∧
      (∀ i ∈ ys, u.prev i = none ∧ u.next i = none) ∧
      Seg u.nextparallel u.prevparallel (some pstat) ys none := by
  induction ys generalizing fuel pstat s with
  | nil =>
      obtain ⟨fuel, rfl⟩ : ∃ k, fuel = k + 1 := ⟨fuel - 1, by simp at hfuel; omega⟩
      have hend : s.nextparallel pstat = none := h.1
      refine ⟨s, ?_, .refl s, rfl, fun _ _ => ⟨rfl, rfl, rfl, rfl⟩, rfl, by simp, trivial⟩
      simp [fixGroup, hend]
  | cons y ys ih =>
      obtain ⟨fuel, rfl⟩ : ∃ k, fuel = k + 1 := ⟨fuel - 1, by simp at hfuel; omega⟩
      have hnext : s.nextparallel pstat = some y := h.1
      rw [List.nodup_cons] at hnd
      obtain ⟨u, hu, hl, htail, hout, hnp, hfree, hseg⟩ :=
        @ih { s with prevparallel := assign s.prevparallel (some y) (some pstat)
                     prev := assign s.prev (some y) none
                     next := assign s.next (some y) none } fuel y h.2 hnd.2 (by simpa using hfuel)
      have hy : y ∉ ys := (List.nodup_cons.mp hnd.2).1
      obtain ⟨hny, hpy, -, hppy⟩ := hout y hy
      refine ⟨u, ?_, ⟨hl.name, hl.config, hl.status, hl.nattachments, hl.nstations⟩, htail,
        fun i hi => ?_, hnp, fun i hi => ?_, ?_⟩
      · simp only [fixGroup, hnext]
        exact hu
      · rw [List.mem_cons, not_or] at hi
        have hne : ¬ some y = some i := by simpa using fun h => hi.1 h.symm
        obtain ⟨h1, h2, h3, h4⟩ := hout i hi.2
        exact ⟨h1.trans (assign_of_ne hne), h2.trans (assign_of_ne hne), h3,
          h4.trans (assign_of_ne hne)⟩
      · rcases List.mem_cons.mp hi with rfl | hi
        · exact ⟨hpy.trans (by simp), hny.trans (by simp)⟩
        · exact hfree i hi
      · refine ⟨hppy.trans (by simp), ?_, hseg⟩
        rw [hnp]
        exact h.2.1

/-- **For one station of the main list** the link back to the station before it and the
links of its group are rebuilt. -/
theorem fixStation_eq (s : Stations) (ps : ℕ) {fuel pnext : ℕ} {ys : List ℕ}
    (hgroup : if s.isParallel pnext then Fwd s.nextparallel (pnext :: ys) none else ys = [])
    (hnd : (pnext :: ys).Nodup) (hfuel : ys.length < fuel) :
    ∃ u, fixStation fuel ps pnext s = some u ∧ LinksOnly s u ∧
      LinksOutside (pnext :: ys) s u ∧ u.next pnext = s.next pnext ∧ u.prev pnext = some ps ∧
      (∀ i ∈ ys, u.prev i = none ∧ u.next i = none) ∧
      Seg u.nextparallel u.prevparallel none (pnext :: ys) none := by
  set s₁ : Stations := { s with prev := assign s.prev (some pnext) (some ps)
                                prevparallel := assign s.prevparallel (some pnext) none } with hs₁
  have houtside : ∀ i, i ≠ pnext → ¬ some pnext = some i :=
    fun i hi h => hi (Option.some.inj h).symm
  cases hpar : s.isParallel pnext with
  | true =>
      rw [hpar, if_pos rfl] at hgroup
      obtain ⟨u, hu, hl, -, hout, hnp, hfree, hseg⟩ := fixGroup_eq (s := s₁) hgroup hnd hfuel
      have hp : pnext ∉ ys := (List.nodup_cons.mp hnd).1
      obtain ⟨hn, hpr, -, hpp⟩ := hout pnext hp
      refine ⟨u, ?_, ⟨hl.name, hl.config, hl.status, hl.nattachments, hl.nstations⟩,
        fun i hi => ?_, hn, hpr.trans (by simp [hs₁]), hfree, hpp.trans (by simp [hs₁]), ?_, hseg⟩
      · rw [fixStation]
        exact (if_pos hpar).trans hu
      · rw [List.mem_cons, not_or] at hi
        obtain ⟨h1, h2, h3, h4⟩ := hout i hi.2
        exact ⟨h1, h2.trans (assign_of_ne (houtside i hi.1)), h3,
          h4.trans (assign_of_ne (houtside i hi.1))⟩
      · rw [hnp]
        exact hgroup.1
  | false =>
      rw [hpar, if_neg (by simp)] at hgroup
      subst hgroup
      refine ⟨{ s₁ with nextparallel := assign s.nextparallel (some pnext) none }, ?_,
        ⟨rfl, rfl, rfl, rfl, rfl⟩, fun i hi => ?_, rfl, by simp [hs₁], by simp, by simp [hs₁]⟩
      · rw [fixStation]
        exact if_neg (by simpa [Stations.isParallel] using hpar)
      · rw [List.mem_singleton] at hi
        exact ⟨rfl, assign_of_ne (houtside i hi), assign_of_ne (houtside i hi),
          assign_of_ne (houtside i hi)⟩

/-- **Along the main list** all links are rebuilt from the forward ones. -/
theorem fixMain_eq {groupFuel fuel : ℕ} (hmain : Fwd s.next (ps :: heads vs) none)
    (hgroup : ∀ g ∈ vs,
      if s.isParallel g.1 then Fwd s.nextparallel (g.1 :: g.2) none else g.2 = [])
    (hnd : (ps :: members vs).Nodup) (hfuel : (heads vs).length < fuel)
    (hgf : ∀ g ∈ vs, g.2.length < groupFuel) :
    ∃ u, fixMain groupFuel fuel ps s = some u ∧ LinksOnly s u ∧
      LinksOutside (members vs) s u ∧ u.statTail = (ps :: heads vs).getLast? ∧
      Seg u.next u.prev (some ps) (heads vs) none ∧
      (∀ g ∈ vs, Seg u.nextparallel u.prevparallel none (g.1 :: g.2) none) ∧
      ∀ g ∈ vs, ∀ i ∈ g.2, u.prev i = none ∧ u.next i = none := by
  induction vs generalizing s ps fuel with
  | nil =>
      obtain ⟨fuel, rfl⟩ : ∃ k, fuel = k + 1 := ⟨fuel - 1, by simp at hfuel; omega⟩
      have hend : s.next ps = none := hmain.1
      refine ⟨{ s with statTail := some ps }, by simp [fixMain, hend], ⟨rfl, rfl, rfl, rfl, rfl⟩,
        fun _ _ => ⟨rfl, rfl, rfl, rfl⟩, rfl, trivial, by simp, by simp⟩
  | cons g vs ih =>
      obtain ⟨fuel, rfl⟩ : ∃ k, fuel = k + 1 := ⟨fuel - 1, by simp at hfuel; omega⟩
      have hnext : s.next ps = some g.1 := hmain.1
      rw [members_cons, ← List.cons_append] at hnd
      have hnd' := (List.nodup_cons.mp hnd).2
      obtain ⟨hndg, hndv, hdis⟩ := List.nodup_append.mp hnd'
      obtain ⟨u, hu, hl, hout, hnextg, hprevg, hfree, hseg⟩ :=
        fixStation_eq s ps (hgroup g List.mem_cons_self) hndg
          (hgf g List.mem_cons_self)
      have hv : ∀ i ∈ members vs, i ∉ g.1 :: g.2 := fun i hi hg => hdis i hg i hi rfl
      have hg : ∀ i ∈ g.1 :: g.2, i ∉ members vs := fun i hi hiv => hdis i hi i hiv rfl
      have hip := isParallel_congr hl.config
      obtain ⟨w, hw, hl', hout', htail, hmain', hgroups, hfrees⟩ := @ih u g.1 fuel
        (by
          refine Fwd.congr hmain.2 fun i hi => ?_
          rcases List.mem_cons.mp hi with rfl | hi
          · exact hnextg
          · exact (hout i (hv i (mem_members_of_mem_heads hi))).1)
        (by
          intro k hk
          have hold := hgroup k (List.mem_cons_of_mem _ hk)
          rw [hip]
          split
          case isTrue hp =>
            rw [if_pos hp] at hold
            exact hold.congr fun i hi => (hout i (hv i (mem_members.mpr ⟨k, hk, hi⟩))).2.2.1
          case isFalse hp =>
            rw [if_neg hp] at hold
            exact hold)
        (List.nodup_cons.mpr ⟨hg g.1 List.mem_cons_self, hndv⟩) (by simpa using hfuel)
        fun k hk => hgf k (List.mem_cons_of_mem _ hk)
      refine ⟨w, ?_, hl.trans hl', fun i hi => ?_, ?_, ?_, fun k hk => ?_, fun k hk i hi => ?_⟩
      · simp only [fixMain, hnext, hu, Option.bind_some]
        exact hw
      · rw [members_cons, ← List.cons_append, List.mem_append, not_or] at hi
        obtain ⟨h1, h2, h3, h4⟩ := hout i hi.1
        obtain ⟨h1', h2', h3', h4'⟩ := hout' i hi.2
        exact ⟨h1'.trans h1, h2'.trans h2, h3'.trans h3, h4'.trans h4⟩
      · rw [htail, heads_cons, List.getLast?_cons_cons]
      · obtain ⟨h1, h2, -, -⟩ := hout' g.1 (hg g.1 List.mem_cons_self)
        exact ⟨h2.trans hprevg, (h1.trans hnextg).trans hmain.2.1, hmain'⟩
      · rcases List.mem_cons.mp hk with rfl | hk
        · exact hseg.congr (fun i hi => (hout' i (hg i hi)).2.2.1)
            fun i hi => (hout' i (hg i hi)).2.2.2
        · exact hgroups k hk
      · rcases List.mem_cons.mp hk with rfl | hk
        · obtain ⟨h1, h2, -, -⟩ := hout' i (hg i (List.mem_cons_of_mem _ hi))
          exact ⟨h2.trans (hfree i hi).1, h1.trans (hfree i hi).2⟩
        · exact hfrees k hk i hi

/-- **`et_fix_linkedlist` is right** on every table whose forward links show a chain. -/
theorem Forward.fixLinkedlist_eq {fuel : ℕ} (h : Forward s gs)
    (hfuel : (members gs).length ≤ fuel) :
    ∃ u, fixLinkedlist fuel s = some u ∧ LinksOnly s u ∧ ChainOk u gs := by
  obtain ⟨vs, rfl⟩ : ∃ vs, gs = (0, []) :: vs := by
    cases gs with
    | nil => exact absurd h.gc (by simp)
    | cons g vs => exact ⟨vs, by rw [show g = (0, []) by simpa using h.gc]⟩
  have hnd := h.nodup
  rw [members_cons, List.nil_append] at hnd hfuel
  rw [List.length_cons] at hfuel
  have hheads : (heads vs).length ≤ (members vs).length := (heads_sublist_members vs).length_le
  have hgf : ∀ g ∈ vs, g.2.length < fuel := by
    intro g hg
    obtain ⟨us, ws, rfl⟩ := List.append_of_mem hg
    simp only [members_append, members_cons, List.length_append, List.length_cons] at hfuel
    omega
  obtain ⟨u, hu, hl, hout, htail, hmain, hgroups, hfree⟩ :=
    @fixMain_eq s vs 0 fuel fuel h.main (fun g hg => h.group g (List.mem_cons_of_mem _ hg)) hnd
      (by omega) hgf
  obtain ⟨hn, hp, hnp, hpp⟩ := hout 0 (List.nodup_cons.mp hnd).1
  refine ⟨u, hu, hl, ⟨h.gc, ⟨hp.trans h.gcPrev, hn.trans h.main.1, hmain⟩, htail, ?_, ?_, ?_,
    h.nodup⟩⟩
  · intro g hg
    rcases List.mem_cons.mp hg with rfl | hg
    · exact seg_singleton.mpr ⟨hpp.trans h.gcGroup.2, hnp.trans h.gcGroup.1⟩
    · exact hgroups g hg
  · intro g hg i hi
    rcases List.mem_cons.mp hg with rfl | hg
    · exact absurd hi (by simp)
    · exact hfree g hg i hi
  · rw [isParallel_congr hl.config, hl.config]
    exact h.compat

/-! ## `et_fix_stations` -/

/-- The search of `et_fix_stations` for a station along the forward links.  It is the walk
of `station_find`. -/
def inStationList (fuel : ℕ) (s : Stations) (ps : ℕ) : Option Bool :=
  (findInMain s ps fuel fuel 1 0).map Option.isSome

/-- The loop of `et_fix_stations` over the stations; the value is the number of stations
counted, and the table. -/
def fixStationsLoop (fuel : ℕ) : List ℕ → ℤ → Stations → Option (ℤ × Stations)
  | [], nstats, s => some (nstats, s)
  | i :: is, nstats, s =>
      if s.status i = .creating then fixStationsLoop fuel is nstats (s.initStation i)
      else if s.status i ≠ .unused then
        match inStationList fuel s i with
        | none => none
        | some true => fixStationsLoop fuel is (nstats + 1) s
        | some false => fixStationsLoop fuel is (nstats + 1) (s.initStation i)
      else fixStationsLoop fuel is nstats s

/-- `et_fix_stations`. -/
def fixStations (cfg : SysConfig) (fuel : ℕ) (s : Stations) : Option Stations :=
  (fixStationsLoop fuel (List.range cfg.nstations).tail 1 s).map fun r =>
    { r.2 with nstations := r.1 }

/-- The search along a group. -/
theorem findInGroup_eq (ps : ℕ) (counter : ℤ) {fuel cur : ℕ} {ys : List ℕ}
    (h : Fwd s.nextparallel (cur :: ys) none) (hfuel : ys.length < fuel) :
    ∃ r, findInGroup s ps fuel counter cur = some r ∧ (r.isSome = true ↔ ps ∈ ys) := by
  induction ys generalizing fuel cur counter with
  | nil =>
      obtain ⟨fuel, rfl⟩ : ∃ k, fuel = k + 1 := ⟨fuel - 1, by simp at hfuel; omega⟩
      have hend : s.nextparallel cur = none := h.1
      exact ⟨none, by simp [findInGroup, hend], by simp⟩
  | cons y ys ih =>
      obtain ⟨fuel, rfl⟩ : ∃ k, fuel = k + 1 := ⟨fuel - 1, by simp at hfuel; omega⟩
      have hnext : s.nextparallel cur = some y := h.1
      by_cases hy : y = ps
      · exact ⟨some counter, by simp [findInGroup, hnext, hy], by simp [hy]⟩
      · obtain ⟨r, hr, hiff⟩ := ih (counter + 1) h.2 (by simpa using hfuel)
        refine ⟨r, by simp [findInGroup, hnext, hy, hr], hiff.trans ?_⟩
        simp [Ne.symm hy]

/-- The search along the main list. -/
theorem findInMain_eq {groupFuel fuel cur : ℕ} {counter : ℤ}
    (hmain : Fwd s.next (cur :: heads vs) none)
    (hgroup : ∀ g ∈ vs,
      if s.isParallel g.1 then Fwd s.nextparallel (g.1 :: g.2) none else g.2 = [])
    (hfuel : (heads vs).length < fuel) (hgf : ∀ g ∈ vs, g.2.length < groupFuel) :
    ∃ r, findInMain s ps groupFuel fuel counter cur = some r ∧
      (r.isSome = true ↔ ps ∈ members vs) := by
  induction vs generalizing cur fuel counter with
  | nil =>
      obtain ⟨fuel, rfl⟩ : ∃ k, fuel = k + 1 := ⟨fuel - 1, by simp at hfuel; omega⟩
      have hend : s.next cur = none := hmain.1
      exact ⟨none, by simp [findInMain, hend], by simp⟩
  | cons g vs ih =>
      obtain ⟨fuel, rfl⟩ : ∃ k, fuel = k + 1 := ⟨fuel - 1, by simp at hfuel; omega⟩
      have hnext : s.next cur = some g.1 := hmain.1
      have hg := hgroup g List.mem_cons_self
      obtain ⟨r, hr, hiff⟩ := @ih fuel g.1 (counter + 1) hmain.2
        (fun k hk => hgroup k (List.mem_cons_of_mem _ hk)) (by simpa using hfuel)
        fun k hk => hgf k (List.mem_cons_of_mem _ hk)
      by_cases hhd : g.1 = ps
      · exact ⟨some (counter, 0), by simp [findInMain, hnext, hhd], by simp [hhd]⟩
      cases hpar : s.isParallel g.1 with
      | false =>
          rw [hpar, if_neg (by simp)] at hg
          refine ⟨r, by simp [findInMain, hnext, hhd, hpar, hr], hiff.trans ?_⟩
          simp [hg, Ne.symm hhd]
      | true =>
          rw [hpar, if_pos rfl] at hg
          obtain ⟨q, hq, hqiff⟩ :=
            findInGroup_eq ps 1 hg (hgf g List.mem_cons_self)
          cases q with
          | some q =>
              have hmem : ps ∈ g.2 := hqiff.mp rfl
              exact ⟨some (counter, q), by simp [findInMain, hnext, hhd, hpar, hq], by simp [hmem]⟩
          | none =>
              have hmem : ps ∉ g.2 := fun hm => by simpa using hqiff.mpr hm
              refine ⟨r, by simp [findInMain, hnext, hhd, hpar, hq, hr], hiff.trans ?_⟩
              simp [hmem, Ne.symm hhd]

/-- **The search finds exactly the stations of the chain.** -/
theorem Forward.inStationList_eq {fuel : ℕ} (h : Forward s gs)
    (hfuel : (members gs).length ≤ fuel) (h0 : ps ≠ 0) :
    inStationList fuel s ps = some (decide (ps ∈ members gs)) := by
  obtain ⟨vs, rfl⟩ : ∃ vs, gs = (0, []) :: vs := by
    cases gs with
    | nil => exact absurd h.gc (by simp)
    | cons g vs => exact ⟨vs, by rw [show g = (0, []) by simpa using h.gc]⟩
  rw [members_cons, List.nil_append, List.length_cons] at hfuel
  have hheads : (heads vs).length ≤ (members vs).length := (heads_sublist_members vs).length_le
  have hgf : ∀ g ∈ vs, g.2.length < fuel := by
    intro g hg
    obtain ⟨us, ws, rfl⟩ := List.append_of_mem hg
    simp only [members_append, members_cons, List.length_append, List.length_cons] at hfuel
    omega
  obtain ⟨r, hr, hiff⟩ := @findInMain_eq s vs ps fuel fuel 0 1 h.main
    (fun g hg => h.group g (List.mem_cons_of_mem _ hg)) (by omega) hgf
  rw [inStationList, hr, Option.map_some, members_cons, List.nil_append]
  congr 1
  rw [Bool.eq_iff_iff, hiff, decide_eq_true_iff, List.mem_cons]
  simp [h0]

end EventTransfer
