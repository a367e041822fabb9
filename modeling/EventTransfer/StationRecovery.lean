import EventTransfer.StationRepair

/-!
# Dying while a station is inserted or removed

A process can die at any point of `station_insert` or `station_remove`.  By `StationLink`
the forward links then show either the chain before or the chain after; the repair keeps
that chain and gives up a station in use that is not in it.

The chain is always right.  The count is not: `et_fix_stations` counts the stations that
were in use before it looks for them in the lists, so the station it gives up is still
counted.  `stationLists_recover_iff` says when this happens.
-/

namespace EventTransfer

open LinkedHeap StoreProgram StoreProgram.Prog

variable {cfg : SysConfig} {s t u : Stations} {gs gs' : List Group} {used : List ℕ} {ps : ℕ}

/-- Giving up a station that is in no list leaves the chain as it is. -/
theorem ChainOk.initStation (h : ChainOk s gs) (hps : ps ∉ members gs) :
    ChainOk (s.initStation ps) gs := by
  have hne : ∀ i ∈ members gs, i ≠ ps := fun i hi => ne_of_mem_of_not_mem hi hps
  refine h.congr (fun i hi => ?_) (fun i hi => ?_) (fun i hi => ?_) (fun i hi => ?_)
    (fun i hi => ?_) rfl
  all_goals exact Function.update_of_ne (hne i hi) _ _

/-- **The loop of `et_fix_stations`** gives up every station that is in no list, and counts
all stations that were in use, also the ones it gives up. -/
theorem fixStationsLoop_eq {fuel : ℕ} {is : List ℕ} {nstats : ℤ} (h : ChainOk s gs)
    (hfuel : (members gs).length ≤ fuel) (hin : ∀ i ∈ members gs, s.InUse i)
    (hnd : is.Nodup) (h0 : 0 ∉ is) :
    ∃ t, fixStationsLoop fuel is nstats s =
        some (nstats + is.countP fun i => decide (s.InUse i), t) ∧ ChainOk t gs ∧
      (∀ i ∈ is, i ∉ members gs → t.status i = .unused) ∧
      ∀ i, i ∉ is ∨ i ∈ members gs → t.status i = s.status i := by
  induction is generalizing s nstats with
  | nil => exact ⟨s, by simp [fixStationsLoop], h, by simp, fun _ _ => rfl⟩
  | cons i is ih =>
      rw [List.nodup_cons] at hnd
      rw [List.mem_cons, not_or] at h0
      have hsearch : inStationList fuel s i = some (decide (i ∈ members gs)) :=
        h.forward.inStationList_eq hfuel (Ne.symm h0.1)
      -- what is left to do after the station `i` has been given up
      have given : ∀ n : ℤ, i ∉ members gs →
          ∃ t, fixStationsLoop fuel is n (s.initStation i) =
              some (n + is.countP fun i => decide (s.InUse i), t) ∧ ChainOk t gs ∧
            (∀ j ∈ i :: is, j ∉ members gs → t.status j = .unused) ∧
            ∀ j, j ∉ i :: is ∨ j ∈ members gs → t.status j = s.status j := by
        intro n hi
        have hstatus : ∀ j, j ≠ i → (s.initStation i).status j = s.status j :=
          fun j hj => Function.update_of_ne hj _ _
        obtain ⟨t, ht, hchain, hun, hsame⟩ := @ih (s.initStation i) n (h.initStation hi)
          (fun j hj => by
            rw [Stations.InUse, hstatus j (ne_of_mem_of_not_mem hj hi)]
            exact hin j hj) hnd.2 h0.2
        refine ⟨t, ?_, hchain, fun j hj hjm => ?_, fun j hj => ?_⟩
        · rw [ht]
          congr 4
          refine List.countP_congr fun j hj => ?_
          rw [decide_eq_true_iff, decide_eq_true_iff]
          simp only [Stations.InUse, hstatus j (ne_of_mem_of_not_mem hj hnd.1)]
        · rcases List.mem_cons.mp hj with rfl | hj
          · rw [hsame j (Or.inl hnd.1)]
            exact Function.update_self _ _ _
          · exact hun j hj hjm
        · have hji : j ≠ i := by
            rcases hj with hj | hj
            · exact fun h => hj (h ▸ List.mem_cons_self)
            · exact ne_of_mem_of_not_mem hj hi
          rw [hsame j (hj.imp_left fun hj hj' => hj (List.mem_cons_of_mem _ hj')), hstatus j hji]
      have kept : ∀ n : ℤ, (i ∉ members gs → s.status i = .unused) →
          ∃ t, fixStationsLoop fuel is n s =
              some (n + is.countP fun i => decide (s.InUse i), t) ∧ ChainOk t gs ∧
            (∀ j ∈ i :: is, j ∉ members gs → t.status j = .unused) ∧
            ∀ j, j ∉ i :: is ∨ j ∈ members gs → t.status j = s.status j := by
        intro n hi
        obtain ⟨t, ht, hchain, hun, hsame⟩ := @ih s n h hin hnd.2 h0.2
        refine ⟨t, ht, hchain, fun j hj hjm => ?_, fun j hj => ?_⟩
        · rcases List.mem_cons.mp hj with rfl | hj
          · rw [hsame j (Or.inl hnd.1), hi hjm]
          · exact hun j hj hjm
        · exact hsame j (hj.imp_left fun hj hj' => hj (List.mem_cons_of_mem _ hj'))
      unfold fixStationsLoop
      by_cases hcr : s.status i = .creating
      · have hnot : ¬ s.InUse i := by simp [Stations.InUse, hcr]
        rw [if_pos hcr, List.countP_cons_of_neg (by simpa using hnot)]
        exact given nstats fun hi => hnot (hin i hi)
      rw [if_neg hcr]
      by_cases hun : s.status i = .unused
      · have hnot : ¬ s.InUse i := by simp [Stations.InUse, hun]
        rw [if_neg (not_not.mpr hun), List.countP_cons_of_neg (by simpa using hnot)]
        exact kept nstats fun _ => hun
      · have huse : s.InUse i := by
          cases hs : s.status i <;> simp [Stations.InUse, hs] at hcr hun ⊢
        rw [if_pos hun, List.countP_cons_of_pos (by simpa using huse), hsearch]
        have hadd : nstats + ((is.countP fun i => decide (s.InUse i)) + 1 : ℕ) =
            nstats + 1 + (is.countP fun i => decide (s.InUse i) : ℕ) := by
          push_cast
          ring
        rw [hadd]
        by_cases hi : i ∈ members gs
        · rw [decide_eq_true hi]
          exact kept _ fun hn => absurd hi hn
        · rw [decide_eq_false hi]
          exact given _ hi

/-! ## Recovery -/

/-- The repair of the station lists, each loop with as many rounds as there are places for
stations. -/
def repairStations (cfg : SysConfig) (s : Stations) : Option Stations :=
  (fixLinkedlist cfg.nstations s).bind (fixStations cfg cfg.nstations)

/-- The number of stations whose status is not `ET_STATION_UNUSED`. -/
def usedStations (cfg : SysConfig) (s : Stations) : ℕ :=
  (List.range cfg.nstations).countP fun i => s.status i ≠ .unused

/-- **The table recovers from a death**: the repair ends, the chain is well formed again, the
stations of `kept` occur in it exactly once, and `nstations` is right. -/
def StationsRecover (cfg : SysConfig) (kept : List ℕ) (t : Stations) : Prop :=
  ∃ v, repairStations cfg t = some v ∧
    (∃ gs, ChainOk v gs ∧ ∀ i ∈ kept, (members gs).count i = 1) ∧
    v.nstations = usedStations cfg v

/-- The stations in use at the death are `used`, and the forward links show the chain `gs`
of some of them. -/
structure CrashTable (cfg : SysConfig) (used : List ℕ) (gs : List Group) (t : Stations) :
    Prop where
  forward : Forward t gs
  nodup : used.Nodup
  inUse : ∀ i, i ∈ used ↔ t.InUse i
  unused : ∀ i, t.InUse i ∨ t.status i = .unused
  bound : ∀ i ∈ used, i < cfg.nstations
  sub : members gs ⊆ used

theorem CrashTable.length_le (h : CrashTable cfg used gs t) :
    (members gs).length ≤ cfg.nstations := by
  have hsub : members gs ⊆ List.range cfg.nstations :=
    fun i hi => List.mem_range.mpr (h.bound i (h.sub hi))
  simpa using (List.subperm_of_subset h.forward.nodup hsub).length_le

/-- Counting in the station array. -/
theorem countP_range_eq {n : ℕ} {xs : List ℕ} {p : ℕ → Bool} (hnd : xs.Nodup)
    (hbound : ∀ i ∈ xs, i < n) (hp : ∀ i < n, p i = true ↔ i ∈ xs) :
    (List.range n).countP p = xs.length := by
  rw [List.countP_eq_length_filter]
  refine List.Perm.length_eq ((List.perm_ext_iff_of_nodup (List.nodup_range.filter _) hnd).mpr
    fun i => ?_)
  rw [List.mem_filter, List.mem_range]
  exact ⟨fun hi => (hp i hi.1).mp hi.2, fun hi => ⟨hbound i hi, (hp i (hbound i hi)).mpr hi⟩⟩

/-- **What the repair makes of a crash table**: the chain the forward links show, with
`nstations` the number of stations in use before the repair. -/
theorem CrashTable.repair (h : CrashTable cfg used gs t) :
    ∃ v, repairStations cfg t = some v ∧ ChainOk v gs ∧ v.nstations = used.length ∧
      usedStations cfg v = (members gs).length := by
  have hfuel := h.length_le
  obtain ⟨u, hu, hl, hchain⟩ := h.forward.fixLinkedlist_eq hfuel
  have hInUse : ∀ i, u.InUse i ↔ t.InUse i := fun i => by
    rw [Stations.InUse, Stations.InUse, hl.status]
  have hin : ∀ i ∈ members gs, u.InUse i := fun i hi => (hInUse i).mpr ((h.inUse i).mp (h.sub hi))
  have h0gs : 0 ∈ members gs := hchain.zero_mem
  have h0 : 0 < cfg.nstations := h.bound 0 (h.sub h0gs)
  obtain ⟨n, hn⟩ : ∃ n, cfg.nstations = n + 1 := ⟨cfg.nstations - 1, by omega⟩
  have hrange : List.range cfg.nstations = 0 :: (List.range cfg.nstations).tail := by
    rw [hn, List.range_succ_eq_map, List.tail_cons]
  have hnd : (List.range cfg.nstations).Nodup := List.nodup_range
  rw [hrange, List.nodup_cons] at hnd
  obtain ⟨v, hv, hchain', hun, hsame⟩ := @fixStationsLoop_eq u gs cfg.nstations
    (List.range cfg.nstations).tail 1 hchain hfuel hin hnd.2 hnd.1
  have hcount : (1 : ℤ) + ((List.range cfg.nstations).tail.countP fun i => decide (u.InUse i) : ℕ) =
      used.length := by
    have hall := countP_range_eq (n := cfg.nstations) (p := fun i => decide (u.InUse i)) h.nodup
      h.bound fun i _ => by rw [decide_eq_true_iff, hInUse, h.inUse]
    rw [hrange, List.countP_cons_of_pos (by simpa using hin 0 h0gs)] at hall
    rw [← hall]
    push_cast
    ring
  rw [hcount] at hv
  refine ⟨{ v with nstations := used.length }, ?_, ?_, rfl, ?_⟩
  · rw [repairStations, hu, Option.bind_some, fixStations, hv, Option.map_some]
  · exact hchain'.congr (fun _ _ => rfl) (fun _ _ => rfl) (fun _ _ => rfl) (fun _ _ => rfl)
      (fun _ _ => rfl) rfl
  · refine countP_range_eq hchain.nodup (fun i hi => h.bound i (h.sub hi)) fun i hi => ?_
    rw [decide_eq_true_iff]
    by_cases him : i ∈ members gs
    · have huse : v.InUse i := by
        rw [Stations.InUse, hsame i (Or.inr him)]
        exact hin i him
      have hne : v.status i ≠ .unused := by
        rcases huse with hs | hs <;> simp [hs]
      exact iff_of_true hne him
    · have hi0 : i ≠ 0 := fun h0 => him (h0 ▸ h0gs)
      have htail : i ∈ (List.range cfg.nstations).tail := by
        have hir : i ∈ List.range cfg.nstations := List.mem_range.mpr hi
        rw [hrange] at hir
        exact (List.mem_cons.mp hir).resolve_left hi0
      exact iff_of_false (not_not.mpr (hun i htail him)) him

/-- **Recovery in terms of the crash table**: the chain is right if it still shows the
stations to be kept; the count is right exactly if it shows all stations in use. -/
theorem CrashTable.recover_iff {kept : List ℕ} (h : CrashTable cfg used gs t)
    (hkept : kept ⊆ members gs) :
    StationsRecover cfg kept t ↔ used ⊆ members gs := by
  obtain ⟨v, hv, hchain, hn, hused⟩ := h.repair
  constructor
  · rintro ⟨v', hv', -, hcount⟩
    obtain rfl := Option.some.inj (hv.symm.trans hv')
    have hlen : (members gs).length = used.length := by
      rw [hn, hused] at hcount
      exact_mod_cast hcount.symm
    exact ((List.subperm_of_subset h.forward.nodup h.sub).perm_of_length_le hlen.ge).symm.subset
  · intro hsub
    refine ⟨v, hv, ⟨gs, hchain, fun i hi => ?_⟩, ?_⟩
    · exact List.count_eq_one_of_mem hchain.nodup (hkept hi)
    · have hperm := (List.perm_ext_iff_of_nodup h.nodup h.forward.nodup).mpr fun i =>
        ⟨fun hi => hsub hi, fun hi => h.sub hi⟩
      rw [hn, hused, hperm.length_eq]

/-- **The station is reached** from GRAND_CENTRAL along the forward links. -/
def Reached (cfg : SysConfig) (t : Stations) (ps : ℕ) : Prop :=
  inStationList cfg.nstations t ps = some true

instance (cfg : SysConfig) (t : Stations) (ps : ℕ) : Decidable (Reached cfg t ps) :=
  inferInstanceAs (Decidable (_ = _))

/-- A death between two stores of a change that concerns the station `ps` only: the forward
links show all the other stations in use. -/
theorem CrashTable.recover_iff_reached {rest : List ℕ} (h : CrashTable cfg used gs t)
    (hperm : used.Perm (ps :: rest)) (h0 : ps ≠ 0) (hrest : rest ⊆ members gs) {kept : List ℕ}
    (hkept : kept ⊆ members gs) : StationsRecover cfg kept t ↔ Reached cfg t ps := by
  rw [h.recover_iff hkept, Reached, h.forward.inStationList_eq h.length_le h0, Option.some.injEq,
    decide_eq_true_iff]
  constructor
  · exact fun hsub => hsub (hperm.mem_iff.mpr List.mem_cons_self)
  · intro hps i hi
    rcases List.mem_cons.mp (hperm.mem_iff.mp hi) with rfl | hi
    · exact hps
    · exact hrest hi

/-- Dying in `station_insert`, as `et_station_create_at` calls it. -/
theorem stationInsert_recovers_iff {statName : String} {sc : StatConfig} {fuel : ℕ}
    {position parallelposition : ℤ} (h : StationsOk cfg s gs) (hunused : s.status ps = .unused)
    (hbound : ps < cfg.nstations)
    (ht : t ∈ crashStates (stationInsert fuel ps position parallelposition)
      (s.created ps statName sc)) :
    StationsRecover cfg (members gs) t ↔ Reached cfg t ps := by
  have hps : ps ∉ members gs := h.notMem_of_unused hunused
  have hcount : (s.created ps statName sc).nstations = (members gs).length + 1 := by
    rw [← h.count]
    rfl
  obtain ⟨gs', hgs', hins⟩ := wp_stationInsert fuel position parallelposition
    (h.chain.created hps) hps hcount
    (fun place _ => by cases place <;> simp [Clean, Stations.created, Stations.initStation])
  obtain ⟨hl, hforward⟩ := hins.crash ht
  have hnd : (ps :: members gs).Nodup := List.nodup_cons.mpr ⟨hps, h.chain.nodup⟩
  have hstatus : t.status = Function.update s.status ps .idle := hl.status
  have table : ∀ {ks}, Forward t ks → members ks ⊆ ps :: members gs →
      CrashTable cfg (ps :: members gs) ks t := by
    intro ks hks hsub
    refine ⟨hks, hnd, fun i => ?_, fun i => ?_, fun i hi => ?_, hsub⟩
    · rw [List.mem_cons, Stations.InUse, hstatus]
      by_cases hi : i = ps
      · simp [hi]
      · rw [Function.update_of_ne hi, h.inUse, Stations.InUse]
        tauto
    · rw [Stations.InUse, hstatus]
      by_cases hi : i = ps
      · simp [hi]
      · rw [Function.update_of_ne hi]
        exact h.unused i
    · rcases List.mem_cons.mp hi with rfl | hi
      · exact hbound
      · exact h.bound i hi
  have h0 : ps ≠ 0 := (ne_of_mem_of_not_mem h.gc_mem hps).symm
  rcases hforward with hold | hnew
  · exact (table hold (List.subset_cons_self _ _)).recover_iff_reached (.refl _) h0
      (List.Subset.refl _) (List.Subset.refl _)
  · rcases hgs' with rfl | hperm
    · exact (table hnew (List.subset_cons_self _ _)).recover_iff_reached (.refl _) h0
        (List.Subset.refl _) (List.Subset.refl _)
    · have hsub : members gs ⊆ members gs' :=
        fun i hi => hperm.mem_iff.mpr (List.mem_cons_of_mem _ hi)
      exact (table hnew hperm.subset).recover_iff_reached (.refl _) h0 hsub hsub

/-- Dying in `station_remove`, as `et_station_remove` calls it. -/
theorem stationRemove_recovers_iff (h : StationsOk cfg s gs) (hps : ps ∈ members gs)
    (h0 : ps ≠ 0) (ht : t ∈ crashStates (stationRemove ps) s) :
    StationsRecover cfg ((members gs).erase ps) t ↔ Reached cfg t ps := by
  obtain ⟨gs', hleaves⟩ := h.chain.exists_leaves hps h0
  have hperm := hleaves.members_perm
  obtain ⟨hl, hforward⟩ := (wp_stationRemove h.chain hleaves).crash ht
  have hkept : (members gs).erase ps ⊆ members gs' := by
    intro i hi
    rw [h.chain.nodup.mem_erase_iff] at hi
    exact (List.mem_cons.mp (hperm.mem_iff.mp hi.2)).resolve_left hi.1
  have table : ∀ {ks}, Forward t ks → members ks ⊆ members gs →
      CrashTable cfg (members gs) ks t := by
    intro ks hks hsub
    refine ⟨hks, h.chain.nodup, fun i => ?_, fun i => ?_, h.bound, hsub⟩
    · rw [h.inUse, Stations.InUse, Stations.InUse, hl.status]
    · rw [Stations.InUse, hl.status]
      exact h.unused i
  have hsub : members gs' ⊆ members gs :=
    fun i hi => hperm.mem_iff.mpr (List.mem_cons_of_mem _ hi)
  rcases hforward with hold | hnew
  · exact (table hold (List.Subset.refl _)).recover_iff_reached hperm h0 hsub
      (List.erase_subset)
  · exact (table hnew hsub).recover_iff_reached hperm h0 (List.Subset.refl _) hkept

/-- **Recovery from every death in `station_insert` and `station_remove`.**  The repaired
table is right exactly if the station concerned is still, or already, in the lists. -/
theorem stationLists_recover_iff (h : StationsOk cfg s gs) :
    (∀ (ps : ℕ) (statName : String) (sc : StatConfig) (fuel : ℕ)
        (position parallelposition : ℤ), s.status ps = .unused → ps < cfg.nstations →
      ∀ t ∈ crashStates (stationInsert fuel ps position parallelposition)
        (s.created ps statName sc),
        StationsRecover cfg (members gs) t ↔ Reached cfg t ps) ∧
    ∀ ps ∈ members gs, ps ≠ 0 → ∀ t ∈ crashStates (stationRemove ps) s,
      StationsRecover cfg ((members gs).erase ps) t ↔ Reached cfg t ps := by
  constructor
  · intro ps statName sc fuel position parallelposition hunused hbound t ht
    exact stationInsert_recovers_iff h hunused hbound ht
  · intro ps hps h0 t ht
    exact stationRemove_recovers_iff h hps h0 ht

/-- The first station is being inserted, and the process dies after the last store. -/
theorem stationLists_recover_example :
    StationsRecover twoStations [0] (final (stationInsert 3 1 etEnd etEnd)
      ((Stations.initial twoStations).created 1 "A" .default)) :=
  ((stationLists_recover_iff (stationsOk_initial (by decide))).1 1 "A" .default 3 etEnd etEnd
    (by decide) (by decide) _ (final_mem_crashStates _ _)).mpr (by decide)

/-- **The station given up is still counted.**  `"A"` is being removed from the lists of
GRAND_CENTRAL, `"A"` and `"B"`, and the process dies after the last store. -/
theorem stationRemove_death_miscounts :
    ∃ gs, StationsOk twoStations tableAB gs ∧ 1 ∈ members gs ∧
      ∃ t ∈ crashStates (stationRemove 1) tableAB,
        ¬ StationsRecover twoStations ((members gs).erase 1) t := by
  obtain ⟨gs, hgs⟩ := (stationRun_tableAB fun _ _ => trivial).stationsOk (by decide)
  have h1 : 1 ∈ members gs := (hgs.inUse 1).mpr (by decide)
  refine ⟨gs, hgs, h1, final (stationRemove 1) tableAB, final_mem_crashStates _ _, ?_⟩
  rw [stationRemove_recovers_iff hgs h1 (by decide) (final_mem_crashStates _ _)]
  decide

end EventTransfer
