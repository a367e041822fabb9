import EventTransfer.StationPosition

/-!
# The station chain over whole runs

`StationRun cfg P s`: the table `s` is reached from the table of a fresh ET system by
successful calls of `et_station_create`, `et_station_remove` and `et_station_setposition`,
each of which meets `P`, and by what other parts of the system do to the table.

The calls keep the chain well formed as long as only stations in use are removed and no
station takes a left-over link with it to its new place (`StationOp.Proper`).
-/

namespace EventTransfer

open LinkedHeap StoreProgram StoreProgram.Prog

variable {cfg : SysConfig} {s t : Stations} {gs gs' : List Group} {ps : ℕ}

/-- What happens to the station table: the three calls, and what others do to it.  Attaching
and detaching change the attachments of a station in use and its status between
`ET_STATION_IDLE` and `ET_STATION_ACTIVE`; conductors change the `waslast` flags. -/
inductive StationOp
  | create (fuel : ℕ) (started : Bool) (statName : Option String) (sconfig : Option StatConfig)
      (position parallelposition : ℤ)
  | remove (statId : ℤ)
  | setposition (fuel : ℕ) (statId position parallelposition : ℤ)
  | attachments (ps : ℕ) (active : Bool) (n : ℤ)
  | conduct (waslast : ℕ → Bool)

/-- **One successful operation.** -/
inductive StationStep (cfg : SysConfig) (s : Stations) : StationOp → Stations → Prop
  | create {fuel : ℕ} {started : Bool} {statName : Option String} {sconfig : Option StatConfig}
      {position parallelposition : ℤ} {statId : Option ℕ}
      (ok : value (etStationCreateAt cfg fuel started statName sconfig position
        parallelposition) s = some (.ok, statId)) :
      StationStep cfg s (.create fuel started statName sconfig position parallelposition)
        (final (etStationCreateAt cfg fuel started statName sconfig position
          parallelposition) s)
  | remove {statId : ℤ} (ok : value (etStationRemove cfg statId) s = .ok) :
      StationStep cfg s (.remove statId) (final (etStationRemove cfg statId) s)
  | setposition {fuel : ℕ} {statId position parallelposition : ℤ}
      (ok : value (etStationSetposition cfg fuel statId position parallelposition) s =
        some .ok) :
      StationStep cfg s (.setposition fuel statId position parallelposition)
        (final (etStationSetposition cfg fuel statId position parallelposition) s)
  | attachments {ps : ℕ} {active : Bool} {n : ℤ} (inUse : s.InUse ps) :
      StationStep cfg s (.attachments ps active n)
        { s with status := assign s.status (some ps) (if active then .active else .idle)
                 nattachments := assign s.nattachments (some ps) n }
  | conduct {waslast : ℕ → Bool} :
      StationStep cfg s (.conduct waslast) { s with waslast := waslast }

/-- **When a call does what it should.**  A station that is removed must be in use, and a
station that is moved must not keep a link it has from its old place: the links that are
not set for the new place must be `-1` already. -/
def StationOp.Proper (s : Stations) : StationOp → Prop
  | .remove statId => s.InUse statId.toNat
  | .setposition fuel statId position parallelposition =>
      statId ≠ 0 → ∀ place, insertPlace fuel (final (stationRemove statId.toNat) s)
        statId.toNat position parallelposition = some place → Clean s statId.toNat place
  | _ => True

/-- The tables reached by successful operations that meet `P`. -/
inductive StationRun (cfg : SysConfig) (P : Stations → StationOp → Prop) : Stations → Prop
  | start : StationRun cfg P (.initial cfg)
  | step {s s' : Stations} {op : StationOp} (run : StationRun cfg P s) (proper : P s op)
      (step : StationStep cfg s op s') : StationRun cfg P s'

/-! ## The invariant -/

/-- **The invariant**: the links are those of a chain of exactly the stations in use, no
station is being created, `nstations` is the number of stations in use, and GRAND_CENTRAL
has its name. -/
structure StationsOk (cfg : SysConfig) (s : Stations) (gs : List Group) : Prop where
  chain : ChainOk s gs
  inUse : ∀ i, i ∈ members gs ↔ s.InUse i
  unused : ∀ i, s.InUse i ∨ s.status i = .unused
  bound : ∀ i ∈ members gs, i < cfg.nstations
  count : s.nstations = (members gs).length
  gcName : s.name 0 = "GRAND_CENTRAL"

theorem StationsOk.gc_mem (h : StationsOk cfg s gs) : 0 ∈ members gs := by
  obtain ⟨rest, rfl⟩ := h.chain.heads_eq
  simp

/-- A station with status `ET_STATION_UNUSED` is in no list. -/
theorem StationsOk.notMem_of_unused (h : StationsOk cfg s gs) (hu : s.status ps = .unused) :
    ps ∉ members gs := by
  rw [h.inUse]
  rintro (hi | ha)
  · exact nomatch hu.symm.trans hi
  · exact nomatch hu.symm.trans ha

/-- The same stations in another order. -/
theorem StationsOk.of_perm (h : StationsOk cfg s gs) (hp : (members gs').Perm (members gs))
    (hchain : ChainOk t gs') (hl : LinksOnly s t) : StationsOk cfg t gs' := by
  refine ⟨hchain, fun i => ?_, fun i => ?_, fun i hi => ?_, ?_, ?_⟩
  · rw [hp.mem_iff, h.inUse, Stations.InUse, Stations.InUse, hl.status]
  · rw [Stations.InUse, hl.status]
    exact h.unused i
  · exact h.bound i (hp.mem_iff.mp hi)
  · rw [hl.nstations, h.count, hp.length_eq]
  · rw [hl.name, h.gcName]

/-! ### The table of a fresh system -/

theorem firstUnused_blank (hcfg : 0 < cfg.nstations) (n : ℤ) :
    firstUnused cfg { Stations.blank with nstations := n } = some 0 := by
  obtain ⟨k, hk⟩ : ∃ k, cfg.nstations = k + 1 := ⟨cfg.nstations - 1, by omega⟩
  rw [firstUnused, hk, List.range_succ_eq_map]
  rfl

theorem stationExists_blank (name : String) : stationExists cfg .blank name = none := by
  rw [stationExists, List.find?_eq_none]
  intro i _
  simp [Stations.blank]

/-- A call that passes all checks, for a name that is free, goes on to `createNew`. -/
theorem etStationCreateAt_eq {fuel : ℕ} {started : Bool} {name : String} {sc sc' : StatConfig}
    {position parallelposition : ℤ} (hname : ¬ etStatnameLength - 1 < name.utf8ByteSize)
    (hpos : ¬ (position ≠ etEnd ∧ position < 0)) (hpar : ¬ badParallelposition parallelposition)
    (hinit : ¬ sc.init = false) (hgc : ¬ (name ≠ "GRAND_CENTRAL" ∧ position = 0))
    (hcheck : stationConfigCheck cfg sc = some sc') (hexists : stationExists cfg s name = none)
    (hroom : ¬ (cfg.nstations : ℤ) ≤ s.nstations) :
    etStationCreateAt cfg fuel started (some name) (some sc) position parallelposition s =
      createNew cfg fuel started name sc' position parallelposition s := by
  simp only [etStationCreateAt, Option.getD_some]
  rw [if_neg hname, if_neg hpos, if_neg hpar, if_neg hinit, if_neg hgc, hcheck]
  show (Prog.get >>= _) s = _
  rw [get_bind_apply]
  simp only [hexists]
  rw [if_neg hroom]

/-- The first station created is GRAND_CENTRAL, at the first place. -/
theorem initial_eq (hcfg : 0 < cfg.nstations) :
    Stations.initial cfg =
      { Stations.blank with
        name := Function.update Stations.blank.name 0 "GRAND_CENTRAL"
        config := Function.update Stations.blank.config 0 grandcentralConfig
        status := Function.update Stations.blank.status 0 .active
        nstations := 1 } := by
  have hcheck : stationConfigCheck cfg grandcentralConfig = some grandcentralConfig := by
    simp [stationConfigCheck, grandcentralConfig, StatConfig.default, StatConfig.isSharing,
      etStationUserMulti, etStationPrescale]
  have hroom : ¬ (cfg.nstations : ℤ) ≤ Stations.blank.nstations := by
    simp [Stations.blank]
    omega
  have hcreate := @etStationCreateAt_eq cfg .blank 0 true _ _ _ etEnd etEnd
    (by decide : ¬ etStatnameLength - 1 < "GRAND_CENTRAL".utf8ByteSize) (by decide) (by decide)
    (by decide) (by decide) hcheck (stationExists_blank _) hroom
  rw [Stations.initial, final_congr hcreate]
  simp only [createNew, final_bind, final_store, final_get, value_get,
    firstUnused_blank hcfg (Stations.blank.nstations + 1)]
  simp [Stations.initStation, Stations.blank, Function.update_idem]

theorem stationsOk_initial (hcfg : 0 < cfg.nstations) :
    StationsOk cfg (.initial cfg) [(0, [])] := by
  rw [initial_eq hcfg]
  refine ⟨⟨rfl, ?_, rfl, ?_, by simp, by simp, by simp⟩, fun i => ?_, fun i => ?_, ?_, rfl, rfl⟩
  · exact seg_singleton.mpr ⟨rfl, rfl⟩
  · simp [Stations.blank]
  · by_cases hi : i = 0
    · simp [hi, Stations.InUse]
    · simp [hi, Stations.InUse, Stations.blank]
  · by_cases hi : i = 0
    · simp [hi, Stations.InUse]
    · simp [hi, Stations.InUse, Stations.blank]
  · simpa using hcfg

/-! ### What one call preserves -/

/-- The table just before `et_station_create_at` inserts the new station. -/
def Stations.created (s : Stations) (ps : ℕ) (statName : String) (sc : StatConfig) : Stations :=
  { s.initStation ps with
    name := Function.update s.name ps statName
    config := Function.update s.config ps sc
    status := Function.update s.status ps .idle
    nstations := s.nstations + 1 }

/-- The new station is not linked yet, so the chain is as it was. -/
theorem ChainOk.created {statName : String} {sc : StatConfig} (h : ChainOk s gs)
    (hps : ps ∉ members gs) : ChainOk (s.created ps statName sc) gs := by
  have hne : ∀ i ∈ members gs, i ≠ ps := fun i hi => ne_of_mem_of_not_mem hi hps
  refine h.congr (fun i hi => ?_) (fun i hi => ?_) (fun i hi => ?_) (fun i hi => ?_)
    (fun i hi => ?_) rfl
  all_goals exact Function.update_of_ne (hne i hi) _ _

/-- After the insertion the new station is one of those in use. -/
theorem StationsOk.entered {statName : String} {sc : StatConfig} (h : StationsOk cfg s gs)
    (hunused : s.status ps = .unused) (hbound : ps < cfg.nstations)
    (hperm : (members gs').Perm (ps :: members gs)) (hchain : ChainOk t gs')
    (hl : LinksOnly (s.created ps statName sc) t) : StationsOk cfg t gs' := by
  have hps : ps ∉ members gs := h.notMem_of_unused hunused
  have hstatus : t.status = Function.update s.status ps .idle := hl.status
  have h0 : 0 ≠ ps := ne_of_mem_of_not_mem h.gc_mem hps
  refine ⟨hchain, fun i => ?_, fun i => ?_, fun i hi => ?_, ?_, ?_⟩
  · rw [hperm.mem_iff, List.mem_cons, Stations.InUse, hstatus]
    by_cases hi : i = ps
    · simp [hi]
    · rw [Function.update_of_ne hi, h.inUse, Stations.InUse]
      tauto
  · rw [Stations.InUse, hstatus]
    by_cases hi : i = ps
    · simp [hi]
    · rw [Function.update_of_ne hi]
      exact h.unused i
  · rcases List.mem_cons.mp (hperm.mem_iff.mp hi) with rfl | hi
    · exact hbound
    · exact h.bound i hi
  · have hn : t.nstations = s.nstations + 1 := hl.nstations
    rw [hn, h.count, hperm.length_eq, List.length_cons]
    push_cast
    rfl
  · have hname : t.name = Function.update s.name ps statName := hl.name
    rw [hname, Function.update_of_ne h0, h.gcName]

/-- What a successful call leaves. -/
def StaysOk (cfg : SysConfig) (ok : Prop) (t : Stations) : Prop :=
  ok → ∃ gs, StationsOk cfg t gs

/-- **Nothing but an unused place differs.** -/
structure SameButUnused (s t : Stations) (ps : ℕ) : Prop where
  unused : t.status ps = .unused
  name : ∀ i ≠ ps, t.name i = s.name i
  config : ∀ i ≠ ps, t.config i = s.config i
  status : ∀ i ≠ ps, t.status i = s.status i
  next : ∀ i ≠ ps, t.next i = s.next i
  prev : ∀ i ≠ ps, t.prev i = s.prev i
  nextparallel : ∀ i ≠ ps, t.nextparallel i = s.nextparallel i
  prevparallel : ∀ i ≠ ps, t.prevparallel i = s.prevparallel i
  statTail : t.statTail = s.statTail
  nstations : t.nstations = s.nstations

/-- What is in an unused place does not matter. -/
theorem StationsOk.sameButUnused (h : StationsOk cfg s gs) (hs : SameButUnused s t ps)
    (hunused : s.status ps = .unused) : StationsOk cfg t gs := by
  have hps : ps ∉ members gs := h.notMem_of_unused hunused
  have hne : ∀ i ∈ members gs, i ≠ ps := fun i hi => ne_of_mem_of_not_mem hi hps
  have hstatus : ∀ i, t.status i = s.status i := by
    intro i
    by_cases hi : i = ps
    · rw [hi, hs.unused, hunused]
    · exact hs.status i hi
  have hchain : ChainOk t gs := h.chain.congr (fun i hi => hs.config i (hne i hi))
    (fun i hi => hs.next i (hne i hi)) (fun i hi => hs.prev i (hne i hi))
    (fun i hi => hs.nextparallel i (hne i hi)) (fun i hi => hs.prevparallel i (hne i hi))
    hs.statTail
  refine ⟨hchain, fun i => ?_, fun i => ?_, h.bound, ?_, ?_⟩
  · rw [h.inUse, Stations.InUse, Stations.InUse, hstatus]
  · rw [Stations.InUse, hstatus]
    exact h.unused i
  · rw [hs.nstations, h.count]
  · rw [hs.name 0 (hne 0 h.gc_mem), h.gcName]

/-- **What a call that ends leaves**: a proper table, in which every station was in use before
and has the configuration it had, or has the configuration `sc` as the check has passed it. -/
def CreateDone (cfg : SysConfig) (s : Stations) (sc : StatConfig) (t : Stations) : Prop :=
  ∃ gs, StationsOk cfg t gs ∧ ∀ i, t.InUse i → s.InUse i ∧ t.config i = s.config i ∨
    stationConfigCheck cfg sc = some (t.config i)

theorem StationsOk.createDone {sc : StatConfig} (h : StationsOk cfg s gs)
    (hs : SameButUnused s t ps) (hunused : s.status ps = .unused) : CreateDone cfg s sc t := by
  refine ⟨gs, h.sameButUnused hs hunused, fun i hi => Or.inl ?_⟩
  have hne : i ≠ ps := by
    rintro rfl
    rw [Stations.InUse, hs.unused] at hi
    rcases hi with hi | hi
    · exact nomatch hi
    · exact nomatch hi
  rw [Stations.InUse, hs.status i hne] at hi
  exact ⟨hi, hs.config i hne⟩

/-- Creating a station whose name is free, with a configuration that has passed the check. -/
theorem wp_createNew (fuel : ℕ) (started : Bool) (statName : String) {sconfig sc : StatConfig}
    (position parallelposition : ℤ) (h : StationsOk cfg s gs)
    (hname : statName ≠ "GRAND_CENTRAL") (hcheck : stationConfigCheck cfg sconfig = some sc) :
    wp (createNew cfg fuel started statName sc position parallelposition) (fun _ => True)
      (fun r t => r ≠ none → CreateDone cfg s sconfig t) s := by
  simp only [createNew, wp_bind, wp_store, wp_get, true_and]
  cases hfirst : firstUnused cfg { s with nstations := s.nstations + 1 } with
  | none =>
      simp only [wp_bind, wp_store, wp_pure, true_and]
      refine fun _ => ⟨gs, ?_, fun i hi => Or.inl ⟨hi, rfl⟩⟩
      rw [add_sub_cancel_right]
      exact h
  | some ps =>
      have hunused : s.status ps = .unused := by simpa using List.find?_some hfirst
      have hbound : ps < cfg.nstations := List.mem_range.mp (List.mem_of_find?_eq_some hfirst)
      have hps : ps ∉ members gs := h.notMem_of_unused hunused
      simp only [wp_bind, wp_store, true_and, if_neg hname, wp_ite]
      split
      case isTrue hstart =>
        simp only [wp_pure, true_and]
        refine fun _ => h.createDone (show SameButUnused s _ ps from ⟨?_, fun i hi => ?_,
          fun i hi => ?_, fun i hi => ?_, fun i hi => ?_, fun i hi => ?_, fun i hi => ?_,
          fun i hi => ?_, rfl, ?_⟩) hunused
        all_goals simp [Stations.initStation, *]
      case isFalse hstart =>
        -- the table before the insertion, whose stores are all to the new station
        have hbefore : (⟨assign (s.initStation ps).name (some ps) statName,
            assign (s.initStation ps).config (some ps) sc,
            assign (assign (s.initStation ps).status (some ps) .creating) (some ps) .idle,
            (s.initStation ps).nattachments, (s.initStation ps).next, (s.initStation ps).prev,
            (s.initStation ps).nextparallel, (s.initStation ps).prevparallel,
            (s.initStation ps).waslast, s.statTail, s.nstations + 1⟩ : Stations) =
              s.created ps statName sc := by
          simp [Stations.created, Stations.initStation, Function.update_idem]
        have hcount : (s.created ps statName sc).nstations = (members gs).length + 1 := by
          rw [← h.count]
          rfl
        obtain ⟨gs', -, hins⟩ := wp_stationInsert fuel position parallelposition
          (h.chain.created hps) hps hcount
          (fun place _ => by cases place <;> simp [Clean, Stations.created, Stations.initStation])
        rw [← hbefore] at hins
        refine wp_mono hins (fun _ _ => trivial) fun r t _ hdone => ?_
        rw [hbefore] at hdone
        rcases hdone with ⟨-, rfl, rfl | ⟨rfl, -⟩⟩ | ⟨hperm, rfl, hchain, hl⟩
        · -- there was no place for the station, and it is given up
          simp only [wp_bind, wp_store, wp_pure, true_and]
          refine fun _ => h.createDone (show SameButUnused s _ ps from ⟨?_, fun i hi => ?_,
            fun i hi => ?_, fun i hi => ?_, fun i hi => ?_, fun i hi => ?_, fun i hi => ?_,
            fun i hi => ?_, rfl, ?_⟩) hunused
          all_goals simp [Stations.created, Stations.initStation, *]
        · simp
        · rw [wp_pure]
          refine ⟨trivial, fun _ => ⟨gs', h.entered hunused hbound hperm hchain hl, fun i hi => ?_⟩⟩
          rw [hl.config]
          by_cases hip : i = ps
          · refine Or.inr ?_
            rw [hip, hcheck]
            simp [Stations.created]
          · refine Or.inl ⟨?_, Function.update_of_ne hip _ _⟩
            rw [Stations.InUse, hl.status] at hi
            simpa [Stations.InUse, Stations.created, Function.update_of_ne hip] using hi

/-- `et_station_create_at` keeps the invariant. -/
theorem wp_etStationCreateAt (fuel : ℕ) (started : Bool) (statName : Option String)
    (sconfig : Option StatConfig) (position parallelposition : ℤ) (h : StationsOk cfg s gs) :
    wp (etStationCreateAt cfg fuel started statName sconfig position parallelposition)
      (fun _ => True) (fun r t => r ≠ none → CreateDone cfg s (sconfig.getD .default) t) s := by
  have same : ∀ r : Option (Ret × Option ℕ), wp (pure r : Prog Stations _) (fun _ => True)
      (fun r t => r ≠ none → CreateDone cfg s (sconfig.getD .default) t) s := by
    intro r
    rw [wp_pure]
    exact ⟨trivial, fun _ => ⟨gs, h, fun i hi => Or.inl ⟨hi, rfl⟩⟩⟩
  cases statName with
  | none => exact same _
  | some name =>
      simp only [etStationCreateAt]
      iterate 5
        split
        · exact same _
      split
      · exact same _
      case h_2 sc hcheck =>
        rw [wp_bind, wp_get]
        refine ⟨trivial, ?_⟩
        split
        · split
          · exact same _
          · exact same _
        case h_2 hexists =>
          split
          · exact same _
          · refine wp_createNew _ _ _ _ _ h (fun hgc => ?_) hcheck
            -- GRAND_CENTRAL exists, so it is not created again
            rw [stationExists, List.find?_eq_none] at hexists
            have h0 := hexists 0 (List.mem_range.mpr (h.bound 0 h.gc_mem))
            have hu : s.status 0 ≠ .unused := by
              intro hu
              exact h.notMem_of_unused hu h.gc_mem
            simp [hu, h.gcName, hgc] at h0

/-- A station leaves the chain and is marked `ET_STATION_UNUSED`. -/
theorem StationsOk.left (h : StationsOk cfg s gs) (hperm : (members gs).Perm (ps :: members gs'))
    (hchain : ChainOk t gs') (hl : LinksOnly s t) :
    StationsOk cfg { t with status := assign t.status (some ps) .unused
                            nstations := t.nstations - 1 } gs' := by
  have hps : ps ∉ members gs' := (List.nodup_cons.mp (hperm.nodup_iff.mp h.chain.nodup)).1
  refine ⟨hchain.congr (fun _ _ => rfl) (fun _ _ => rfl) (fun _ _ => rfl) (fun _ _ => rfl)
    (fun _ _ => rfl) rfl, fun i => ?_, fun i => ?_, fun i hi => ?_, ?_, ?_⟩
  · dsimp only [Stations.InUse]
    rw [hl.status, assign_some]
    by_cases hi : i = ps
    · simp [hi, hps]
    · rw [Function.update_of_ne hi]
      have := h.inUse i
      rw [hperm.mem_iff, List.mem_cons] at this
      rw [Stations.InUse] at this
      tauto
  · dsimp only [Stations.InUse]
    rw [hl.status, assign_some]
    by_cases hi : i = ps
    · simp [hi]
    · rw [Function.update_of_ne hi]
      exact h.unused i
  · exact h.bound i (hperm.mem_iff.mpr (List.mem_cons_of_mem _ hi))
  · dsimp only
    rw [hl.nstations, h.count, hperm.length_eq, List.length_cons]
    push_cast
    ring
  · dsimp only
    rw [hl.name, h.gcName]

/-- `et_station_remove` keeps the invariant if the station is in use. -/
theorem wp_etStationRemove {statId : ℤ} (h : StationsOk cfg s gs)
    (hu : s.InUse statId.toNat) :
    wp (etStationRemove cfg statId) (fun _ => True) (fun r t => StaysOk cfg (r = .ok) t) s := by
  have refused : wp (pure .error : Prog Stations Ret) (fun _ => True)
      (fun r t => StaysOk cfg (r = .ok) t) s := by
    simp [StaysOk]
  unfold etStationRemove
  split
  · exact refused
  case isFalse hneg =>
    split
    · exact refused
    case isFalse hzero =>
      split
      · exact refused
      · have hps : statId.toNat ∈ members gs := (h.inUse _).mpr hu
        have h0 : statId.toNat ≠ 0 := by omega
        obtain ⟨gs', hleaves⟩ := h.chain.exists_leaves hps h0
        simp only [wp_bind, wp_get, wp_ite, true_and]
        split
        · exact refused
        · refine wp_mono (wp_stationRemove h.chain hleaves) (fun _ _ => trivial) fun _ t _ ht => ?_
          simp only [wp_store, wp_pure, true_and]
          exact fun _ => ⟨gs', h.left hleaves.members_perm ht.1 ht.2.1⟩

/-- The chain while a station is taken out of it to be put elsewhere. -/
theorem StationsOk.takenOut (h : StationsOk cfg s gs) (hl : Leaves ps gs gs') :
    ChainOk (final (stationRemove ps) s) gs' ∧ LinksOnly s (final (stationRemove ps) s) ∧
      KeepsLinks s (final (stationRemove ps) s) ps ∧ ps ∉ members gs' ∧
      (final (stationRemove ps) s).nstations = (members gs').length + 1 ∧
      (members gs).length = (members gs').length + 1 := by
  obtain ⟨-, hchain, hlinks, hk⟩ := wp_stationRemove h.chain hl
  have hperm := hl.members_perm
  have hlen : (members gs).length = (members gs').length + 1 := by
    rw [hperm.length_eq, List.length_cons]
  refine ⟨hchain, hlinks, hk, (List.nodup_cons.mp (hperm.nodup_iff.mp h.chain.nodup)).1, ?_, hlen⟩
  rw [hlinks.nstations, h.count, hlen]
  push_cast
  rfl

/-- There are no more stations than places for them. -/
theorem StationsOk.length_le (h : StationsOk cfg s gs) : (members gs).length ≤ cfg.nstations := by
  have hsub : members gs ⊆ List.range cfg.nstations := fun i hi => List.mem_range.mpr (h.bound i hi)
  have hle := (h.chain.nodup.subperm hsub).length_le
  rwa [List.length_range] at hle

/-- `et_station_setposition` keeps the invariant if no link is left over. -/
theorem wp_etStationSetposition {fuel : ℕ} {statId position parallelposition : ℤ}
    (h : StationsOk cfg s gs)
    (hc : StationOp.Proper s (.setposition fuel statId position parallelposition)) :
    wp (etStationSetposition cfg fuel statId position parallelposition) (fun _ => True)
      (fun r t => StaysOk cfg (r = some .ok) t) s := by
  have refused : wp (pure (some .error) : Prog Stations (Option Ret)) (fun _ => True)
      (fun r t => StaysOk cfg (r = some .ok) t) s := by
    simp [StaysOk]
  unfold etStationSetposition
  split
  · exact refused
  case isFalse hneg =>
  split
  · rw [wp_pure]
    exact ⟨trivial, fun _ => ⟨gs, h⟩⟩
  case isFalse hzero =>
  iterate 4
    split
    · exact refused
  simp only [wp_bind, wp_get, wp_ite, true_and]
  split
  · exact refused
  case isFalse hu =>
    have hps : statId.toNat ∈ members gs := (h.inUse _).mpr (not_not.mp hu)
    obtain ⟨gs', hleaves⟩ := h.chain.exists_leaves hps (by omega)
    obtain ⟨hchain, hl, hk, hps', hcount, -⟩ := h.takenOut hleaves
    have hperm := hleaves.members_perm
    obtain ⟨gs'', -, hins⟩ := wp_stationInsert fuel position parallelposition hchain hps' hcount
      fun place hplace => hk.clean.mpr (hc hzero place hplace)
    refine ⟨fun _ _ => trivial, ?_⟩
    refine wp_mono hins (fun _ _ => trivial) fun r t _ hdone => ?_
    rcases hdone with ⟨-, -, hr⟩ | ⟨hperm', rfl, hchain', hl'⟩
    · -- the station goes back, and the call is not successful
      have hne : ¬ r = some .ok := by rcases hr with rfl | ⟨rfl, -⟩ <;> simp
      rw [if_neg hne]
      split
      · rw [wp_bind]
        refine ⟨fun _ _ => trivial, (wp_pure _).mpr ?_⟩
        refine ⟨trivial, fun hok => absurd hok ?_⟩
        intro hok
        obtain ⟨_, -, hok⟩ := Option.bind_eq_some_iff.mp hok
        exact hne hok
      · simp [StaysOk]
    · rw [if_pos rfl, wp_pure]
      exact ⟨trivial, fun _ => ⟨gs'', h.of_perm (hperm'.trans hperm.symm) hchain' (hl.trans hl')⟩⟩

/-! ### Runs -/

/-- **One operation keeps the invariant.** -/
theorem StationsOk.step {op : StationOp} (h : StationsOk cfg s gs) (hp : op.Proper s)
    (hs : StationStep cfg s op t) : ∃ gs', StationsOk cfg t gs' := by
  cases hs with
  | create ok =>
      obtain ⟨gs', h', -⟩ := (wp_etStationCreateAt _ _ _ _ _ _ h).2 fun hnone =>
        nomatch ok.symm.trans hnone
      exact ⟨gs', h'⟩
  | remove ok => exact (wp_etStationRemove h hp).2 ok
  | setposition ok => exact (wp_etStationSetposition h hp).2 ok
  | @attachments ps active n inUse =>
      refine ⟨gs, ⟨h.chain.congr (fun _ _ => rfl) (fun _ _ => rfl) (fun _ _ => rfl)
        (fun _ _ => rfl) (fun _ _ => rfl) rfl, fun i => ?_, fun i => ?_, h.bound, h.count,
        h.gcName⟩⟩
      · rw [h.inUse]
        dsimp only [Stations.InUse]
        rw [assign_some]
        by_cases hi : i = ps
        · subst hi
          cases active <;> simpa [Stations.InUse] using inUse
        · rw [Function.update_of_ne hi]
      · dsimp only [Stations.InUse]
        rw [assign_some]
        by_cases hi : i = ps
        · cases active <;> simp [hi]
        · rw [Function.update_of_ne hi]
          exact h.unused i
  | conduct =>
      exact ⟨gs, ⟨h.chain.congr (fun _ _ => rfl) (fun _ _ => rfl) (fun _ _ => rfl)
        (fun _ _ => rfl) (fun _ _ => rfl) rfl, h.inUse, h.unused, h.bound, h.count, h.gcName⟩⟩

/-- **The invariant holds in every table a run of proper operations reaches.** -/
theorem StationRun.stationsOk (hcfg : 0 < cfg.nstations)
    (h : StationRun cfg (fun s op => op.Proper s) s) : ∃ gs, StationsOk cfg s gs := by
  induction h with
  | start => exact ⟨_, stationsOk_initial hcfg⟩
  | step run proper step ih =>
      obtain ⟨gs, hgs⟩ := ih
      exact hgs.step proper step

/-- **A well-formed table**: the links are those of a chain in which every station in use
occurs exactly once and no unused station occurs. -/
def WellFormed (s : Stations) : Prop :=
  ∃ gs, ChainOk s gs ∧ (∀ i, s.InUse i → (members gs).count i = 1) ∧
    ∀ i, s.status i = .unused → i ∉ members gs

theorem StationsOk.wellFormed (h : StationsOk cfg s gs) : WellFormed s := by
  refine ⟨gs, h.chain, fun i hi => ?_, fun i hi => h.notMem_of_unused hi⟩
  exact List.count_eq_one_of_mem h.chain.nodup ((h.inUse i).mpr hi)

/-- The last station of the main list has no next one. -/
theorem ChainOk.tail_next {a : ℕ} (h : ChainOk s gs) (ht : s.statTail = some a) :
    s.next a = none := by
  have hlast := h.tail.symm.trans ht
  obtain ⟨xs, hxs⟩ : ∃ xs, heads gs = xs ++ [a] := by
    rcases List.eq_nil_or_concat' (heads gs) with hnil | ⟨xs, b, hxs⟩
    · simp [hnil] at hlast
    · rw [hxs, List.getLast?_concat] at hlast
      exact ⟨xs, by rw [hxs, Option.some.inj hlast]⟩
  have hmain := h.main
  rw [hxs] at hmain
  simpa using hmain.links.2

/-- **Removing and moving stations keeps the chain well formed**, in every run whose calls
remove only stations in use and move no station that would keep a link of its old place. -/
theorem stationRun_wellFormed (hcfg : 0 < cfg.nstations)
    (h : StationRun cfg (fun s op => op.Proper s) s) : WellFormed s := by
  obtain ⟨gs, hgs⟩ := h.stationsOk hcfg
  exact hgs.wellFormed

/-! ### Two stations behind GRAND_CENTRAL -/

/-- A system with room for GRAND_CENTRAL and two stations. -/
def twoStations : SysConfig := ⟨1, 3, 1⟩

/-- A station that may be in a group. -/
def groupableConfig : StatConfig := { StatConfig.default with flowMode := .parallel }

/-- Creating a station with the default configuration at the end of the main list. -/
def createLast (name : String) : Prog Stations (Option (Ret × Option ℕ)) :=
  etStationCreateAt twoStations 3 true (some name) none etEnd etEnd

/-- The table with the stations `"A"` and `"B"` behind GRAND_CENTRAL. -/
def tableAB : Stations := final (createLast "B") (final (createLast "A") (.initial twoStations))

/-- Creating is always proper. -/
theorem stationRun_tableAB {P : Stations → StationOp → Prop}
    (hP : ∀ s name, P s (.create 3 true (some name) none etEnd etEnd)) :
    StationRun twoStations P tableAB := by
  refine .step (.step .start (hP _ "A") (.create (?_ : _ = some (Ret.ok, some 1)))) (hP _ "B")
    (.create (?_ : _ = some (Ret.ok, some 2)))
  · decide
  · decide

/-- `"B"` is moved between GRAND_CENTRAL and `"A"`, and `"A"` is removed. -/
theorem stationRun_wellFormed_example :
    0 < twoStations.nstations ∧
      WellFormed (final (etStationRemove twoStations 1)
        (final (etStationSetposition twoStations 3 2 1 etEnd) tableAB)) := by
  have hmove : StationOp.Proper tableAB (.setposition 3 2 1 etEnd) := by
    intro _ place hplace
    have hbetween : insertPlace 3 (final (stationRemove 2) tableAB) 2 1 etEnd =
        some (.between 0 1) := by decide
    obtain rfl : Place.between 0 1 = place := Option.some.inj (hbetween.symm.trans hplace)
    decide
  have hremove : StationOp.Proper (final (etStationSetposition twoStations 3 2 1 etEnd) tableAB)
      (.remove 1) :=
    (by decide : (final (etStationSetposition twoStations 3 2 1 etEnd) tableAB).InUse 1)
  exact ⟨by decide, stationRun_wellFormed (by decide)
    (.step (.step (stationRun_tableAB fun _ _ => trivial) hmove (.setposition (by decide)))
      hremove (.remove (by decide)))⟩

/-- **A left-over link makes a cycle.**  `"A"`, which is followed by `"B"`, is moved to the
end of the main list; its `next` still leads to `"B"`. -/
theorem setposition_makes_cycle :
    ∃ s, StationRun twoStations (fun _ _ => True) s ∧ s.next 1 = some 2 ∧ s.next 2 = some 1 ∧
      ¬ WellFormed s := by
  refine ⟨final (etStationSetposition twoStations 3 1 etEnd etEnd) tableAB,
    .step (stationRun_tableAB fun _ _ => trivial) trivial (.setposition (by decide)), by decide,
    by decide, ?_⟩
  rintro ⟨gs, h, -⟩
  have hnext := h.tail_next (a := 1) (by decide)
  exact absurd hnext (by decide)

end EventTransfer
