import EventTransfer.SnapshotRoundTrip

/-!
# The room for a snapshot

`et_data_stats`, `et_data_atts` and `et_data_procs` make their buffer for a number of records
that they count first, with an estimate of the room for one record; then they write the
records, and add up what they report as the length.

The estimate for a station leaves out one of two file names, and that for an attachment the
address of an interface.  What a station has too little is made up for by the room for
`ET_ATTACHMENTS_MAX` attachments at every station, as soon as there are two stations; nothing
makes up for what an attachment has too little.
-/

namespace EventTransfer

open Wire

/-- **A buffer**: the bytes allocated for it, what is copied to it, and the length reported. -/
structure DataBuffer where
  allocated : ℕ
  written : List Byte
  reported : ℕ

/-- Nothing is written behind the buffer, and its length is reported. -/
def DataBuffer.Holds (b : DataBuffer) : Prop :=
  b.written.length ≤ b.allocated ∧ b.reported = b.written.length

/-- What a station adds to `actualsize`. -/
def StatState.size (st : StatState) : ℕ :=
  4 * (25 + etStationSelectInts + st.att.used.length) + (st.fname.1.bytes.length + 1) +
    (st.lib.1.bytes.length + 1) + (st.classs.1.bytes.length + 1) + (st.name.1.bytes.length + 1)

theorem StatState.length_bytes_eq_size (st : StatState) (parallelHead : Bool) :
    (st.bytes parallelHead).length = st.size := by
  rw [StatState.length_bytes, StatState.need, StatState.size]
  simp only [CStr.length_put]
  omega

namespace SystemState

variable (s : SystemState)

/-- The stations that the walk of `writeStats` comes to. -/
def visitStats (count1 : ℕ) :
    (fuel ps pstat : ℕ) → (parallelHead : Bool) → (count2 : ℕ) →
      Option (ℕ × List (StatState × Bool))
  | 0, _, _, _, _ => none
  | fuel + 1, ps, pstat, parallelHead, count2 =>
      if count1 < count2 + 1 then some (count2 + 1, []) else
      let go (p pstat : ℕ) (head : Bool) :=
        (visitStats count1 fuel p pstat head (count2 + 1)).map fun r =>
          (r.1, (s.stat ps, parallelHead) :: r.2)
      let goMain (head : Bool) :=
        match s.next pstat with
        | some p => go p p head
        | none => some (count2 + 1, [(s.stat ps, parallelHead)])
      if s.isParallel ps then
        match s.nextparallel ps with
        | some p => go p pstat false
        | none => goMain true
      else goMain parallelHead

/-- The bytes of the stations visited. -/
def visitedBytes (visited : List (StatState × Bool)) : List Byte :=
  visited.flatMap fun v => v.1.bytes v.2

/-- They are what the walk writes. -/
theorem writeStats_eq_visit (count1 fuel ps pstat : ℕ) (parallelHead : Bool) (count2 : ℕ) :
    s.writeStats count1 fuel ps pstat parallelHead count2 =
      (s.visitStats count1 fuel ps pstat parallelHead count2).map fun r =>
        (r.1, visitedBytes r.2) := by
  induction fuel generalizing ps pstat parallelHead count2 with
  | zero => rfl
  | succ fuel ih =>
      unfold writeStats visitStats
      split
      case isTrue => rfl
      case isFalse =>
        have go : ∀ (p pstat : ℕ) (head : Bool),
            ((s.writeStats count1 fuel p pstat head (count2 + 1)).map fun r =>
                (r.1, (s.stat ps).bytes parallelHead ++ r.2)) =
              ((s.visitStats count1 fuel p pstat head (count2 + 1)).map fun r =>
                (r.1, (s.stat ps, parallelHead) :: r.2)).map fun r => (r.1, visitedBytes r.2) := by
          intro p pstat head
          rw [ih, Option.map_map, Option.map_map]
          rfl
        have last : ((count2 + 1, (s.stat ps).bytes parallelHead) : ℕ × List Byte) =
            (count2 + 1, visitedBytes [(s.stat ps, parallelHead)]) := by
          simp [visitedBytes]
        cases hnext : s.next pstat with
        | none =>
            cases hpar : s.isParallel ps with
            | false => simp only [Bool.false_eq_true, if_false, Option.map_some, last]
            | true =>
                cases hnp : s.nextparallel ps with
                | none => simp only [if_true, Option.map_some, last]
                | some p => exact go _ _ _
        | some p' =>
            cases hpar : s.isParallel ps with
            | false =>
                simp only [Bool.false_eq_true, if_false]
                exact go _ _ _
            | true =>
                cases hnp : s.nextparallel ps with
                | none => exact go _ _ _
                | some p => exact go _ _ _

/-- `et_data_stats`, with its buffer. -/
def statsBuffer (fuel : ℕ) : Option DataBuffer := do
  let count1 ← s.countStations fuel fuel 0
  let (count2, visited) ← s.visitStats count1 fuel 0 0 true 0
  let count := if count2 < count1 then count2 else count1
  return {
    allocated := 4 + count1 * statRoom
    written := htonl (BitVec.ofNat 32 count) ++ visitedBytes visited
    reported := 4 + (visited.map (·.1.size)).sum }

/-- What an attachment adds to `actualsize`. -/
def attSize (a : AttachState) : ℕ :=
  4 * 18 + (a.host.1.bytes.length + 1) + ((s.stat a.stat.toNat).name.1.bytes.length + 1) +
    (a.interface.1.bytes.length + 1)

/-- `et_data_atts`, with its buffer. -/
def attsBuffer : DataBuffer where
  allocated := 4 + s.usedAtts.length * attRoom
  written := htonl (BitVec.ofNat 32 s.usedAtts.length) ++ s.usedAtts.flatMap s.attBytes
  reported := 4 + (s.usedAtts.map s.attSize).sum

/-- `et_data_procs`, with its buffer. -/
def procsBuffer : DataBuffer where
  allocated := 4 + s.openProcs.length * procRoom
  written := htonl (BitVec.ofNat 32 s.openProcs.length) ++ s.openProcs.flatMap (·.bytes)
  reported := 4 + (s.openProcs.map fun p => 4 * (4 + p.att.used.length)).sum

/-- They are the buffers of which a snapshot is made. -/
theorem etDataStats_eq_buffer (fuel : ℕ) : s.etDataStats fuel =
    (s.statsBuffer fuel).bind fun b => malloced b.allocated b.written := by
  rw [etDataStats, statsBuffer]
  cases s.countStations fuel fuel 0 with
  | none => rfl
  | some count1 =>
      simp only [Option.bind_eq_bind, Option.bind_some, writeStats_eq_visit]
      cases s.visitStats count1 fuel 0 0 true 0 with
      | none => rfl
      | some r => rfl

theorem etDataAtts_eq_buffer :
    s.etDataAtts = malloced s.attsBuffer.allocated s.attsBuffer.written := rfl

theorem etDataProcs_eq_buffer :
    s.etDataProcs = malloced s.procsBuffer.allocated s.procsBuffer.written := rfl

/-! ## What is reported -/

/-- The sizes add up to what is written. -/
theorem length_flatMap_of_size {α : Type} {l : List α} {f : α → List Byte} {size : α → ℕ}
    (h : ∀ a, (f a).length = size a) : (l.flatMap f).length = (l.map size).sum := by
  rw [List.length_flatMap]
  congr 2
  funext a
  exact h a

theorem statsBuffer_reported {fuel : ℕ} {b : DataBuffer} (hb : s.statsBuffer fuel = some b) :
    b.reported = b.written.length := by
  rw [statsBuffer] at hb
  simp only [Option.bind_eq_bind, Option.bind_eq_some_iff, Option.pure_def] at hb
  obtain ⟨count1, -, r, -, hb⟩ := hb
  obtain rfl := Option.some.inj hb
  have hsum : (visitedBytes r.2).length = (r.2.map (·.1.size)).sum :=
    length_flatMap_of_size fun v => v.1.length_bytes_eq_size v.2
  simp only [List.length_append, length_htonl, hsum]

theorem length_attBytes_eq_size (a : AttachState) : (s.attBytes a).length = s.attSize a := by
  rw [length_attBytes, attNeed, attSize]
  simp only [CStr.length_put]
  omega

theorem attsBuffer_reported : s.attsBuffer.reported = s.attsBuffer.written.length := by
  have hsum : (s.usedAtts.flatMap s.attBytes).length = (s.usedAtts.map s.attSize).sum :=
    length_flatMap_of_size s.length_attBytes_eq_size
  simp only [attsBuffer, List.length_append, length_htonl, hsum]

theorem procsBuffer_holds : s.procsBuffer.Holds := by
  have hsize : ∀ p : ProcState, p.bytes.length = 4 * (4 + p.att.used.length) := by
    intro p
    simp only [ProcState.bytes, length_putWords, List.length_append, List.length_cons,
      List.length_nil, List.length_map]
  have hsum : (s.openProcs.flatMap (·.bytes)).length =
      (s.openProcs.map fun p => 4 * (4 + p.att.used.length)).sum := length_flatMap_of_size hsize
  refine ⟨?_, ?_⟩
  · simp only [procsBuffer, List.length_append, length_htonl, Nat.add_le_add_iff_left]
    exact length_flatMap_le fun p _ => p.length_bytes
  · simp only [procsBuffer, List.length_append, length_htonl, hsum]

/-! ## What fits -/

variable {s} {gs : List Group}

/-- No attachment is at two stations. -/
def OneStationEach (s : SystemState) (gs : List Group) : Prop :=
  ∀ i ∈ members gs, ∀ j ∈ members gs, ∀ a, a ∈ (s.stat i).att.used → a ∈ (s.stat j).att.used →
    i = j

theorem sum_used_le (h : s.Chain gs) (hatts : OneStationEach s gs) :
    ((members gs).map fun i => (s.stat i).att.used.length).sum ≤ etAttachmentsMax := by
  have hnodup : ((members gs).flatMap fun i => (s.stat i).att.used).Nodup := by
    refine List.nodup_flatMap.mpr ⟨fun i _ => (List.nodup_finRange _).filter _, ?_⟩
    refine List.Pairwise.imp_of_mem ?_ h.nodup
    intro i j hi hj hne a hai haj
    exact hne (hatts i hi j hj a hai haj)
  have hcard := hnodup.length_le_card
  rwa [List.length_flatMap, Fintype.card_fin] at hcard

/-- **Two stations make up for each other.** -/
theorem stats_fit_of_two (h : s.Chain gs) (hatts : OneStationEach s gs)
    (htwo : 2 ≤ (members gs).length) :
    ((members gs).map fun i => (s.stat i).need).sum ≤ (members gs).length *
      (4 * etAttachmentsMax + etFuncnameLength + etFilenameLength + etStatnameLength) := by
  have hused := sum_used_le h hatts
  have hneed := sum_need_le (s := s) (members gs)
  have hmax : etAttachmentsMax = 100 := rfl
  have hroom : 4 * etAttachmentsMax + etFuncnameLength + etFilenameLength + etStatnameLength =
      596 := rfl
  rw [hroom]
  omega

theorem statsBuffer_eq (h : s.Chain gs) {fuel : ℕ} (hfuel : (members gs).length ≤ fuel) :
    ∃ b, s.statsBuffer fuel = some b ∧ b.allocated = 4 + (members gs).length * statRoom ∧
      b.written.length = 4 + (s.statBytes gs).length := by
  obtain ⟨g, rest, rfl⟩ : ∃ g rest, gs = g :: rest := by
    cases gs with
    | nil => exact nomatch h.gc
    | cons g rest => exact ⟨g, rest, rfl⟩
  have hg : g.1 = 0 := Option.some.inj h.gc
  have hrest : rest.length < fuel := by
    have hle := (heads_sublist_members (g :: rest)).length_le
    simp only [heads, List.length_map, List.length_cons] at hle
    omega
  have hcount := countStations_eq h.main h.group hfuel hrest
  have hwrite := writeStats_chain (members (g :: rest)).length fuel 0 h.main h.group h.parallel
    (by omega) hfuel
  rw [hg] at hcount hwrite
  rw [writeStats_eq_visit, Option.map_eq_some_iff] at hwrite
  obtain ⟨r, hr, heq⟩ := hwrite
  have hbytes : visitedBytes r.2 = s.statBytes (g :: rest) := congrArg Prod.snd heq
  simp only [statsBuffer, hcount, hr, Option.bind_eq_bind, Option.bind_some, Option.pure_def]
  refine ⟨_, rfl, rfl, ?_⟩
  rw [List.length_append, length_htonl, hbytes]

end SystemState

/-- **Exactly when the buffers are large enough**: with one station only, its own attachments and
strings must fit; and the strings of all attachments must fit together.  The lengths that are
reported are those written. -/
theorem data_buffers_hold_iff {s : SystemState} {gs : List Group} (h : s.Chain gs)
    (hatts : s.OneStationEach gs) {fuel : ℕ} (hfuel : (members gs).length ≤ fuel) :
    (∃ b, s.statsBuffer fuel = some b ∧ b.Holds) ∧ s.attsBuffer.Holds ∧ s.procsBuffer.Holds ↔
      ((members gs).length = 1 → (s.stat 0).need ≤
          4 * etAttachmentsMax + etFuncnameLength + etFilenameLength + etStatnameLength) ∧
        (s.usedAtts.map s.attNeed).sum ≤
          s.usedAtts.length * (etMaxhostnamelen + etStatnameLength) := by
  obtain ⟨b, hb, halloc, hwritten⟩ := SystemState.statsBuffer_eq h hfuel
  have hstats : (∃ b, s.statsBuffer fuel = some b ∧ b.Holds) ↔
      ((members gs).length = 1 → (s.stat 0).need ≤
        4 * etAttachmentsMax + etFuncnameLength + etFilenameLength + etStatnameLength) := by
    have hholds : (∃ b, s.statsBuffer fuel = some b ∧ b.Holds) ↔
        (s.statBytes gs).length ≤ (members gs).length * SystemState.statRoom := by
      constructor
      · rintro ⟨b', hb', hle, -⟩
        obtain rfl := Option.some.inj (hb.symm.trans hb')
        omega
      · intro hle
        exact ⟨b, hb, by omega, s.statsBuffer_reported hb⟩
    rw [hholds, SystemState.stats_room_iff]
    obtain ⟨rest, hrest⟩ : ∃ rest, members gs = 0 :: rest := by
      cases gs with
      | nil => exact nomatch h.gc
      | cons g gs => exact ⟨_, by rw [members_cons, ← Option.some.inj h.gc]⟩
    by_cases hone : (members gs).length = 1
    · have hnil : rest = [] := by
        rw [hrest, List.length_cons] at hone
        exact List.length_eq_zero_iff.mp (by omega)
      rw [forall_prop_of_true hone, hone, hrest, hnil, List.map_singleton, List.sum_singleton,
        Nat.one_mul]
    · have htwo : 2 ≤ (members gs).length := by
        rw [hrest, List.length_cons] at hone ⊢
        omega
      exact iff_of_true (SystemState.stats_fit_of_two h hatts htwo) fun h1 => absurd h1 hone
  have hattsBuffer : s.attsBuffer.Holds ↔ (s.usedAtts.map s.attNeed).sum ≤
      s.usedAtts.length * (etMaxhostnamelen + etStatnameLength) := by
    rw [← SystemState.atts_room_iff, DataBuffer.Holds, and_iff_left s.attsBuffer_reported]
    simp only [SystemState.attsBuffer, List.length_append, length_htonl, Nat.add_le_add_iff_left]
  rw [hstats, hattsBuffer, and_iff_left s.procsBuffer_holds]

/-- A system with names of usual lengths. -/
theorem data_buffers_hold_example :
    SystemState.usualNames.Chain [(0, [])] ∧ SystemState.usualNames.OneStationEach [(0, [])] ∧
      (members [(0, [])]).length ≤ 1 ∧
      (∃ b, SystemState.usualNames.statsBuffer 1 = some b ∧ b.Holds) ∧
      SystemState.usualNames.attsBuffer.Holds ∧ SystemState.usualNames.procsBuffer.Holds := by
  have hchain : SystemState.usualNames.Chain [(0, [])] := SystemState.one_chain _ _ _
  have heach : SystemState.usualNames.OneStationEach [(0, [])] := by
    intro i hi j hj a _ _
    rw [List.mem_singleton.mp hi, List.mem_singleton.mp hj]
  refine ⟨hchain, heach, le_rfl, (data_buffers_hold_iff hchain heach le_rfl).mpr ⟨fun _ => ?_, ?_⟩⟩
  · have hstats := SystemState.one_stats (lettersOf 12 (by decide)) (lettersOf 13 (by decide))
      (lettersOf 13 (by decide))
    simp only [members_cons, members_nil, List.append_nil, List.map_singleton, List.sum_singleton,
      List.length_singleton, Nat.one_mul] at hstats
    exact hstats
  · refine (SystemState.one_atts _ _ _).mpr ?_
    simp

/-- **The strings of one attachment are too long**: they need 318 bytes, and there are 304. -/
theorem long_names_overflow :
    SystemState.longNames.Chain [(0, [])] ∧ SystemState.longNames.OneStationEach [(0, [])] ∧
      SystemState.longNames.attsBuffer.allocated = 380 ∧
      SystemState.longNames.attsBuffer.written.length = 394 ∧
      ¬ SystemState.longNames.attsBuffer.Holds := by
  have hused : SystemState.longNames.usedAtts = [SystemState.longNames.attach 0] := rfl
  have halloc : SystemState.longNames.attsBuffer.allocated = 380 := rfl
  have hwritten : SystemState.longNames.attsBuffer.written.length = 394 := by
    have hsize : SystemState.longNames.attSize (SystemState.longNames.attach 0) =
        4 * 18 + (255 + 1) + (47 + 1) + (13 + 1) := by
      have h255 : 255 < etMaxhostnamelen := by decide
      have h47 : 47 < etStatnameLength := by decide
      have h13 : 13 < etIpaddrstrlen := by decide
      show 4 * 18 + ((lettersOf 255 h255).1.bytes.length + 1) +
        ((lettersOf 47 h47).1.bytes.length + 1) + ((lettersOf 13 h13).1.bytes.length + 1) = _
      simp only [length_lettersOf]
    rw [← SystemState.attsBuffer_reported, SystemState.attsBuffer, hused, List.map_singleton,
      List.sum_singleton, hsize]
  refine ⟨SystemState.one_chain _ _ _, fun i hi j hj a _ _ => ?_, halloc, hwritten, fun hno => ?_⟩
  · rw [List.mem_singleton.mp hi, List.mem_singleton.mp hj]
  · have hle := hno.1
    omega

end EventTransfer
