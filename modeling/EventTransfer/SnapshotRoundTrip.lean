import EventTransfer.Snapshot

/-!
# Snapshots are read as they were written

`SystemState.data` is what a monitor should have of a system whose stations form the chain
`gs`: every station of the chain once and in order, the heads of groups marked, every
attachment in use and every open process.

* `run_readStat`, `run_readAtt`, `run_readProc`, `run_etDataGetsys` — each record is read as
  it was written, and nothing of what follows.
* `writeStats_chain` — the walk writes the stations of the chain.
* `snapshot_roundTrip_iff` — a monitor has exactly the state of the system if and only if the
  strings and attachments fit the buffers the writers allocate.
-/

namespace EventTransfer

open Wire LinkedHeap

/-! ## What a monitor should have -/

/-- A station. -/
def StatState.data (st : StatState) (parallelHead : Bool) : StatData where
  num := st.num
  status := st.status
  mutex := st.mutex
  nattachments := st.att.used.length
  att := st.att.entry
  inlistMutex := st.inMutex
  inlistCnt := st.inCnt
  inlistTry := st.eventsTry
  inlistIn := st.eventsIn
  outlistMutex := st.outMutex
  outlistCnt := st.outCnt
  outlistOut := st.eventsOut
  flowMode := st.flowMode.sent parallelHead
  userMode := st.userMode
  restoreMode := st.restoreMode
  blockMode := st.blockMode
  prescale := st.prescale
  cue := st.cue
  selectMode := st.selectMode
  select := st.select
  fname := st.fname
  lib := st.lib
  classs := st.classs
  name := st.name

/-- A process. -/
def ProcState.data (p : ProcState) : ProcData where
  num := p.num
  heartbeat := p.heartbeat
  pid := p.pid
  nattachments := p.att.used.length
  att := p.att.entry

namespace SystemState

variable (s : SystemState)

/-- An attachment. -/
def attData (a : AttachState) : AttData where
  num := a.num
  proc := a.proc
  stat := a.stat
  pid := a.pid
  blocked := a.blocked
  quit := a.quit
  owned := s.eventsOwned a.num
  eventsPut := a.eventsPut
  eventsGet := a.eventsGet
  eventsDump := a.eventsDump
  eventsMake := a.eventsMake
  host := a.host
  station := (s.stat a.stat.toNat).name
  interface := a.interface

/-- The system itself. -/
def sysData : SysData where
  alive := s.alive
  heartbeat := s.heartbeat
  ntemps := s.ntemps
  nstations := s.nstations
  nattachments := s.nattachments
  nprocesses := s.nprocesses
  eventsOwned := s.eventsOwned (-1)
  mutex := s.mutex
  statMutex := s.statMutex
  stataddMutex := s.stataddMutex
  endian := s.endian
  share := s.share
  mainpid := s.mainpid
  nselects := s.nselects
  nevents := s.nevents
  eventSize := s.eventSize
  bit64 := s.bit64
  ntempsMax := s.ntempsMax
  nstationsMax := s.nstationsMax
  nattachmentsMax := s.nattachmentsMax
  nprocessesMax := s.nprocessesMax
  tcpPort := s.tcpPort
  udpPort := s.port
  multiPort := s.port
  ifaddrs := s.netinfo.1
  mcastaddrs := s.mcastaddrs.1
  filename := s.filename

/-- The stations of a chain in order, with a mark for the stations of the main list. -/
def stations (gs : List Group) : List (StatState × Bool) :=
  gs.flatMap fun g => (s.stat g.1, true) :: g.2.map fun i => (s.stat i, false)

/-- **What a monitor should have** of a system with the chain `gs`. -/
def data (gs : List Group) : AllData where
  nstations := BitVec.ofNat 32 (members gs).length
  natts := BitVec.ofNat 32 s.usedAtts.length
  nprocs := BitVec.ofNat 32 s.openProcs.length
  sysdata := s.sysData
  statdata := (s.stations gs).map fun p => p.1.data p.2
  attdata := s.usedAtts.map s.attData
  procdata := s.openProcs.map (·.data)

end SystemState

/-! ## Records -/

theorem AttTable.entry_of_mem_used {t : AttTable} {i : Fin etAttachmentsMax} (h : i ∈ t.used) :
    t.entry i = BitVec.ofNat 32 i := by
  have hnonneg : 0 ≤ (t.entry i).toInt := by simpa [AttTable.used] using h
  rcases t.index i with hnone | hid
  · rw [hnone] at hnonneg
    exact absurd hnonneg (by decide)
  · exact hid

theorem AttTable.entry_of_notMem_used {t : AttTable} {i : Fin etAttachmentsMax}
    (h : i ∉ t.used) : t.entry i = -1 := by
  have hneg : ¬ 0 ≤ (t.entry i).toInt := by simpa [AttTable.used] using h
  rcases t.index i with hnone | hid
  · exact hnone
  · have hi : (i : ℕ) < 100 := i.isLt
    have hnat : (t.entry i).toNat = i := by
      rw [hid, BitVec.toNat_ofNat]
      omega
    rw [BitVec.toInt_eq_toNat_of_lt (by omega)] at hneg
    exact absurd (Int.natCast_nonneg _) hneg

theorem AttTable.length_used_le (t : AttTable) : t.used.length ≤ etAttachmentsMax :=
  (List.length_filter_le _ _).trans_eq (List.length_finRange)

/-- The attachments read are entered in the table. -/
theorem run_fillAtt {w : Fin etAttachmentsMax → Word} (l : List (Fin etAttachmentsMax))
    (hw : ∀ i ∈ l, w i = BitVec.ofNat 32 i) (t : Fin etAttachmentsMax → Word) (rest : List Byte) :
    (fillAtt (l.map w) t).run rest = some (fun i => if i ∈ l then w i else t i, rest) := by
  induction l generalizing t with
  | nil => simp [fillAtt]
  | cons i l ih =>
      have hi : (i : ℕ) < 100 := i.isLt
      have hnat : (w i).toNat = i := by
        rw [hw i List.mem_cons_self, BitVec.toNat_ofNat]
        omega
      have hlt : (w i).toNat < etAttachmentsMax := by
        rw [hnat]
        exact hi
      rw [List.map_cons, fillAtt, dif_pos hlt, ih fun j hj => hw j (List.mem_cons_of_mem i hj)]
      simp only [hnat, Fin.eta, Option.some.injEq, Prod.mk.injEq, and_true]
      funext j
      by_cases hj : j = i
      · subst hj
        simp
      · simp [hj]

/-- **The table is read as it was written.** -/
theorem AttTable.run_fillAtt_used (t : AttTable) (rest : List Byte) :
    (fillAtt (t.used.map t.entry) fun _ => -1).run rest = some (t.entry, rest) := by
  rw [run_fillAtt t.used (fun i hi => entry_of_mem_used hi)]
  simp only [Option.some.injEq, Prod.mk.injEq, and_true]
  funext i
  split
  case isTrue => rfl
  case isFalse h => exact (entry_of_notMem_used h).symm

section

variable (pre mid post : List Word)

/-- The words in the middle of an array. -/
theorem map_range_getD :
    ((List.range mid.length).map fun j => (pre ++ (mid ++ post)).getD (pre.length + j) 0) = mid := by
  apply List.ext_getElem
  · simp
  · intro j h _
    have hj : j < mid.length := by simpa using h
    simp [List.getElem?_append, hj]

/-- The words behind them. -/
theorem getD_behind (j : ℕ) :
    (pre ++ (mid ++ post)).getD (pre.length + mid.length + j) 0 = post.getD j 0 := by
  simp [List.getElem?_append, Nat.add_assoc]

end

/-- The integers of a station behind its attachments. -/
def StatState.tail (st : StatState) (parallelHead : Bool) : List Word :=
  [st.inMutex, st.inCnt, highInt st.eventsTry, lowInt st.eventsTry, highInt st.eventsIn,
    lowInt st.eventsIn, st.outMutex, st.outCnt, highInt st.eventsOut, lowInt st.eventsOut,
    st.flowMode.sent parallelHead, st.userMode, st.restoreMode, st.blockMode, st.prescale, st.cue,
    st.selectMode] ++ (st.select.toList ++
  [st.fname.1.size, st.lib.1.size, st.classs.1.size, st.name.1.size])

namespace StatState

variable (st : StatState) (parallelHead : Bool)

/-- The integers of a station behind the number of its attachments. -/
def words : List Word :=
  [st.num, st.status, st.mutex] ++ (st.att.used.map st.att.entry ++ st.tail parallelHead)

theorem bytes_append (rest : List Byte) : st.bytes parallelHead ++ rest =
    htonl (BitVec.ofNat 32 st.att.used.length) ++ (putWords (st.words parallelHead) ++
      (st.fname.1.put ++ (st.lib.1.put ++ (st.classs.1.put ++ (st.name.1.put ++ rest))))) := by
  simp only [bytes, ints, words, tail, List.cons_append, List.nil_append, putWords_cons,
    List.append_assoc]

theorem length_words :
    (st.words parallelHead).length = 24 + etStationSelectInts + st.att.used.length := by
  simp [words, tail, etStationSelectInts]
  omega

theorem words_atts :
    ((List.range st.att.used.length).map fun j => (st.words parallelHead).getD (3 + j) 0) =
      st.att.used.map st.att.entry := by
  have h := map_range_getD [st.num, st.status, st.mutex] (st.att.used.map st.att.entry)
    (st.tail parallelHead)
  rwa [List.length_map] at h

theorem words_tail (j : ℕ) :
    (st.words parallelHead).getD (3 + st.att.used.length + j) 0 =
      (st.tail parallelHead).getD j 0 := by
  have h := getD_behind [st.num, st.status, st.mutex] (st.att.used.map st.att.entry)
    (st.tail parallelHead) j
  rwa [List.length_map] at h

/-- The lengths of the strings. -/
theorem words_lens (j : ℕ) :
    (st.words parallelHead).getD (3 + st.att.used.length + 17 + etStationSelectInts + j) 0 =
      (st.tail parallelHead).getD (23 + j) 0 := by
  rw [← words_tail, etStationSelectInts]
  congr 1
  omega

end StatState

/-- The number of attachments in a table as it is read. -/
theorem AttTable.toNat_length_used (t : AttTable) :
    (BitVec.ofNat 32 t.used.length).toNat = t.used.length := by
  have hmax : t.used.length ≤ 100 := t.length_used_le
  rw [BitVec.toNat_ofNat]
  omega

/-- **A station is read as it was written.** -/
theorem run_readStat (st : StatState) (parallelHead : Bool) (rest : List Byte) :
    readStat.run (st.bytes parallelHead ++ rest) = some (st.data parallelHead, rest) := by
  have hroom : ¬ etAttachmentsMax < st.att.used.length := not_lt.mpr st.att.length_used_le
  have hatt := st.att.run_fillAtt_used
    (st.fname.1.put ++ (st.lib.1.put ++ (st.classs.1.put ++ (st.name.1.put ++ rest))))
  rw [← st.words_atts parallelHead] at hatt
  have htry : uint64 ((st.tail parallelHead).getD 2 0) ((st.tail parallelHead).getD 3 0) =
      st.eventsTry := uint64_highInt_lowInt _
  have hin : uint64 ((st.tail parallelHead).getD 4 0) ((st.tail parallelHead).getD 5 0) =
      st.eventsIn := uint64_highInt_lowInt _
  have hout : uint64 ((st.tail parallelHead).getD 8 0) ((st.tail parallelHead).getD 9 0) =
      st.eventsOut := uint64_highInt_lowInt _
  rw [st.bytes_append]
  refine run_bind_of (run_readWord _ _) ?_
  dsimp only
  rw [st.att.toNat_length_used, if_neg hroom]
  refine run_bind_of (run_readWords (st.length_words parallelHead) _) ?_
  refine run_bind_of hatt ?_
  simp only [st.words_lens]
  refine run_bind_of (run_readStr_size (by decide) st.fname _) ?_
  refine run_bind_of (run_readStr_size (by decide) st.lib _) ?_
  refine run_bind_of (run_readStr_size (by decide) st.classs _) ?_
  refine run_bind_of (run_readStr_size (by decide) st.name _) ?_
  simp only [SelectWords.ofList, Nat.add_assoc (3 + st.att.used.length), st.words_tail, htry, hin,
    hout]
  rfl

/-- **An attachment is read as it was written.** -/
theorem SystemState.run_readAtt (s : SystemState) (a : AttachState) (rest : List Byte) :
    readAtt.run (s.attBytes a ++ rest) = some (s.attData a, rest) := by
  unfold attBytes
  rw [List.append_assoc, List.append_assoc, List.append_assoc]
  refine run_bind_of (run_readWords (by rfl) _) ?_
  refine run_bind_of (run_readStr_size (by decide) a.host _) ?_
  refine run_bind_of (run_readStr_size (by decide) (s.stat a.stat.toNat).name _) ?_
  refine run_bind_of (run_readStr_size (by decide) a.interface _) ?_
  simp only [List.getD_cons_zero, List.getD_cons_succ, uint64_highInt_lowInt]
  rfl

/-- **A process is read as it was written.** -/
theorem run_readProc (p : ProcState) (rest : List Byte) :
    readProc.run (p.bytes ++ rest) = some (p.data, rest) := by
  have hroom : ¬ etAttachmentsMax < p.att.used.length := not_lt.mpr p.att.length_used_le
  have hbytes : p.bytes ++ rest = htonl (BitVec.ofNat 32 p.att.used.length) ++
      (putWords ([p.num, p.heartbeat, p.pid] ++ (p.att.used.map p.att.entry ++ [])) ++ rest) := by
    simp only [ProcState.bytes, List.cons_append, List.nil_append, putWords_cons,
      List.append_assoc, List.append_nil]
  have hlen : ([p.num, p.heartbeat, p.pid] ++ (p.att.used.map p.att.entry ++ [])).length =
      3 + p.att.used.length := by
    simp
    omega
  have hatts := map_range_getD [p.num, p.heartbeat, p.pid] (p.att.used.map p.att.entry) []
  rw [List.length_map] at hatts
  have hatt := p.att.run_fillAtt_used rest
  rw [← hatts] at hatt
  rw [hbytes]
  refine run_bind_of (run_readWord _ _) ?_
  dsimp only
  rw [p.att.toNat_length_used, if_neg hroom]
  refine run_bind_of (run_readWords hlen _) ?_
  exact run_bind_of hatt rfl

/-- The lengths of strings as words and as numbers. -/
theorem map_toNat_size {n : ℕ} (ss : List (Str n)) :
    (ss.map (·.1.size)).map BitVec.toNat = ss.map fun s => s.1.size.toNat := by
  rw [List.map_map]
  rfl

/-- **The values of the system are read as they were written.** -/
theorem SystemState.run_etDataGetsys (s : SystemState) (rest : List Byte) :
    etDataGetsys.run (s.etDataSys ++ rest) = some (s.sysData, rest) := by
  have hif : s.netinfo.1.length ≤ 10 := s.netinfo.2
  have hmc : s.mcastaddrs.1.length ≤ 10 := s.mcastaddrs.2
  have hifcount : (BitVec.ofNat 32 s.netinfo.1.length).toNat = s.netinfo.1.length := by
    rw [BitVec.toNat_ofNat]
    omega
  have hmcount : (BitVec.ofNat 32 s.mcastaddrs.1.length).toNat = s.mcastaddrs.1.length := by
    rw [BitVec.toNat_ofNat]
    omega
  have hroom : ¬ (etMaxaddresses < s.netinfo.1.length ∨ etMaxaddresses < s.mcastaddrs.1.length) :=
    not_or.mpr ⟨not_lt.mpr s.netinfo.2, not_lt.mpr s.mcastaddrs.2⟩
  -- the lengths of the strings, and where they are
  generalize hlens : s.netinfo.1.map (·.1.size) ++
    (s.mcastaddrs.1.map (·.1.size) ++ [s.filename.1.size]) = lens
  have hlen : lens.length = s.netinfo.1.length + s.mcastaddrs.1.length + 1 := by
    simp [← hlens]
    omega
  have htoNat : lens.map BitVec.toNat = s.netinfo.1.map (fun a => a.1.size.toNat) ++
      (s.mcastaddrs.1.map (fun a => a.1.size.toNat) ++ [s.filename.1.size.toNat]) := by
    rw [← hlens, List.map_append, List.map_append, map_toNat_size, map_toNat_size]
    rfl
  have hifaddrs : (lens.map BitVec.toNat).take s.netinfo.1.length =
      s.netinfo.1.map fun a => a.1.size.toNat := by
    rw [htoNat, List.take_left' (List.length_map _)]
  have hmcaddrs : ((lens.map BitVec.toNat).drop s.netinfo.1.length).take s.mcastaddrs.1.length =
      s.mcastaddrs.1.map fun a => a.1.size.toNat := by
    rw [htoNat, List.drop_left' (List.length_map _), List.take_left' (List.length_map _)]
  have hfilename : (lens.map BitVec.toNat).getD (s.netinfo.1.length + s.mcastaddrs.1.length) 0 =
      s.filename.1.size.toNat := by
    simp [htoNat]
  have hbytes : s.etDataSys ++ rest = putWords s.sysInts ++ (putWords lens ++
      (s.netinfo.1.flatMap (·.1.put) ++ (s.mcastaddrs.1.flatMap (·.1.put) ++
        (s.filename.1.put ++ rest)))) := by
    simp only [etDataSys, hlens, putWords_append, List.append_assoc]
  rw [hbytes]
  refine run_bind_of (run_readWords (by rfl) _) ?_
  simp only [sysInts, List.getD_cons_zero, List.getD_cons_succ, hifcount, hmcount]
  rw [if_neg hroom]
  refine run_bind_of (run_readWords hlen _) ?_
  rw [hifaddrs, hmcaddrs, hfilename]
  refine run_bind_of (run_readStrs (by decide) _ _) ?_
  refine run_bind_of (run_readStrs (by decide) _ _) ?_
  refine run_bind_of (run_readStr_size (by decide) s.filename _) ?_
  simp only [uint64_highInt_lowInt]
  rfl

/-! ## The walk along the chain -/

/-- **A chain**: the forward links are those of `gs`, only stations behind the head of a group
of parallel stations are in no main list, and every station has a place in the table. -/
structure SystemState.Chain (s : SystemState) (gs : List Group) : Prop where
  gc : (heads gs).head? = some 0
  main : Fwd s.next (heads gs) none
  group : ∀ g ∈ gs, if s.isParallel g.1 then Fwd s.nextparallel (g.1 :: g.2) none else g.2 = []
  parallel : ∀ g ∈ gs, ∀ i ∈ g.2, s.isParallel i = true
  nodup : (members gs).Nodup
  bound : ∀ i ∈ members gs, i < s.nstationsMax.toNat

/-- A chain has no more stations than the table. -/
theorem SystemState.Chain.length_lt {s : SystemState} {gs : List Group} (h : s.Chain gs) :
    (members gs).length < 2 ^ 32 := by
  have hle : (members gs).length ≤ (List.range s.nstationsMax.toNat).length := by
    refine (List.Nodup.subperm h.nodup ?_).length_le
    intro i hi
    exact List.mem_range.mpr (h.bound i hi)
  rw [List.length_range] at hle
  exact hle.trans_lt s.nstationsMax.isLt

namespace SystemState

variable {s : SystemState}

theorem countParallel_eq {ms : List ℕ} {ps fuel : ℕ} (h : Fwd s.nextparallel (ps :: ms) none)
    (hfuel : ms.length < fuel) : s.countParallel fuel ps = some ms.length := by
  induction ms generalizing ps fuel with
  | nil =>
      obtain ⟨fuel, rfl⟩ : ∃ k, fuel = k + 1 := ⟨fuel - 1, by omega⟩
      have hend : s.nextparallel ps = none := h.1
      rw [countParallel, hend]
      rfl
  | cons p ms ih =>
      obtain ⟨fuel, rfl⟩ : ∃ k, fuel = k + 1 := ⟨fuel - 1, by omega⟩
      have hnext : s.nextparallel ps = some p := h.1
      rw [countParallel, hnext]
      dsimp only
      rw [ih h.2 (by simpa using hfuel)]
      rfl

/-- The stations behind one of the main list are counted. -/
theorem countGroup_eq {g : Group} (fuel : ℕ)
    (h : if s.isParallel g.1 then Fwd s.nextparallel (g.1 :: g.2) none else g.2 = [])
    (hfuel : g.2.length < fuel) : s.countGroup fuel g.1 = some g.2.length := by
  unfold countGroup
  split
  case isTrue hpar =>
    rw [if_pos hpar] at h
    exact countParallel_eq h hfuel
  case isFalse hpar =>
    rw [if_neg hpar] at h
    rw [h, List.length_nil]

/-- **All stations of the chain are counted.** -/
theorem countStations_eq {g : Group} {rest : List Group} {groupFuel fuel : ℕ}
    (hmain : Fwd s.next (heads (g :: rest)) none)
    (hgroup : ∀ k ∈ g :: rest,
      if s.isParallel k.1 then Fwd s.nextparallel (k.1 :: k.2) none else k.2 = [])
    (hfuel : (members (g :: rest)).length ≤ groupFuel) (hrest : rest.length < fuel) :
    s.countStations groupFuel fuel g.1 = some (members (g :: rest)).length := by
  induction rest generalizing g fuel with
  | nil =>
      obtain ⟨fuel, rfl⟩ : ∃ k, fuel = k + 1 := ⟨fuel - 1, by omega⟩
      have hend : s.next g.1 = none := hmain.1
      have hcount := countGroup_eq groupFuel (hgroup g List.mem_cons_self)
        (by simpa using hfuel)
      rw [countStations, hcount, hend]
      simp [Nat.add_comm]
  | cons k rest ih =>
      obtain ⟨fuel, rfl⟩ : ∃ k, fuel = k + 1 := ⟨fuel - 1, by omega⟩
      have hnext : s.next g.1 = some k.1 := hmain.1
      rw [members_cons, List.length_cons, List.length_append] at hfuel
      have hcount := countGroup_eq groupFuel (hgroup g List.mem_cons_self) (by omega)
      have hmore := ih hmain.2 (fun k' hk' => hgroup k' (List.mem_cons_of_mem g hk')) (by omega)
        (by simpa using hrest)
      rw [countStations, hcount, hnext]
      simp only [Option.bind_eq_bind, Option.bind_some, hmore, Option.map_some, members_cons g,
        List.length_cons, List.length_append]
      congr 1
      omega

/-- What the walk does after the last station of a group or a serial station. -/
def writeMain (s : SystemState) (count1 fuel pstat : ℕ) (count2 : ℕ) : Option (ℕ × List Byte) :=
  match s.next pstat with
  | some p => s.writeStats count1 fuel p p true count2
  | none => some (count2, [])

/-- **The walk through a group** from one of its stations on. -/
theorem writeStats_group {ms : List ℕ} {count1 fuel ps pstat : ℕ} (count2 : ℕ)
    (parallelHead : Bool)
    (h : Fwd s.nextparallel (ps :: ms) none) (hpar : ∀ i ∈ ps :: ms, s.isParallel i = true)
    (hcount : count2 + ms.length < count1) :
    s.writeStats count1 (fuel + ms.length + 1) ps pstat parallelHead count2 =
      (s.writeMain count1 fuel pstat (count2 + ms.length + 1)).map fun r =>
        (r.1, (s.stat ps).bytes parallelHead ++
          (ms.flatMap (fun i => (s.stat i).bytes false) ++ r.2)) := by
  induction ms generalizing ps count2 parallelHead with
  | nil =>
      have hend : s.nextparallel ps = none := h.1
      have hps : s.isParallel ps = true := hpar ps List.mem_cons_self
      have hlt : ¬ count1 < count2 + 1 := by simpa using hcount
      rw [List.length_nil, Nat.add_zero, writeStats, if_neg hlt, hps, hend, writeMain]
      cases s.next pstat with
      | none => simp
      | some p => simp
  | cons p ms ih =>
      have hnext : s.nextparallel ps = some p := h.1
      have hps : s.isParallel ps = true := hpar ps List.mem_cons_self
      rw [List.length_cons] at hcount
      have hlt : ¬ count1 < count2 + 1 := by omega
      have hmore := ih (count2 + 1) false h.2
        (fun i hi => hpar i (List.mem_cons_of_mem ps hi)) (by omega)
      rw [List.length_cons, ← Nat.add_assoc fuel, writeStats, if_neg hlt, hps, hnext]
      simp only [if_true, hmore, Option.map_map]
      have hcomm : count2 + 1 + ms.length + 1 = count2 + (ms.length + 1) + 1 := by omega
      rw [hcomm]
      congr 1
      funext r
      simp

/-- What is written of a list of groups. -/
def statBytes (s : SystemState) (gs : List Group) : List Byte :=
  (s.stations gs).flatMap fun p => p.1.bytes p.2

theorem statBytes_cons (g : Group) (gs : List Group) :
    s.statBytes (g :: gs) = (s.stat g.1).bytes true ++
      (g.2.flatMap (fun i => (s.stat i).bytes false) ++ s.statBytes gs) := by
  simp [statBytes, stations, List.flatMap_map]

/-- **The walk through a group**, or over a serial station, from the main list. -/
theorem writeStats_head {g : Group} {count1 fuel count2 : ℕ}
    (hgroup : if s.isParallel g.1 then Fwd s.nextparallel (g.1 :: g.2) none else g.2 = [])
    (hpar : ∀ i ∈ g.2, s.isParallel i = true) (hcount : count2 + g.2.length < count1) :
    s.writeStats count1 (fuel + g.2.length + 1) g.1 g.1 true count2 =
      (s.writeMain count1 fuel g.1 (count2 + g.2.length + 1)).map fun r =>
        (r.1, (s.stat g.1).bytes true ++ (g.2.flatMap (fun i => (s.stat i).bytes false) ++ r.2)) := by
  split at hgroup
  case isTrue hg =>
    refine writeStats_group count2 true hgroup ?_ hcount
    intro i hi
    rcases List.mem_cons.mp hi with rfl | hi
    · exact hg
    · exact hpar i hi
  case isFalse hg =>
    rw [hgroup, List.length_nil] at hcount ⊢
    have hlt : ¬ count1 < count2 + 1 := by omega
    rw [Nat.add_zero, Nat.add_zero, writeStats, if_neg hlt, if_neg hg, writeMain]
    cases s.next g.1 with
    | none => simp
    | some p => simp

/-- **The walk writes all stations of the chain**, in order. -/
theorem writeStats_chain {g : Group} {rest : List Group} (count1 fuel count2 : ℕ)
    (hmain : Fwd s.next (heads (g :: rest)) none)
    (hgroup : ∀ k ∈ g :: rest,
      if s.isParallel k.1 then Fwd s.nextparallel (k.1 :: k.2) none else k.2 = [])
    (hpar : ∀ k ∈ g :: rest, ∀ i ∈ k.2, s.isParallel i = true)
    (hcount : count2 + (members (g :: rest)).length ≤ count1)
    (hfuel : (members (g :: rest)).length ≤ fuel) :
    s.writeStats count1 fuel g.1 g.1 true count2 =
      some (count2 + (members (g :: rest)).length, s.statBytes (g :: rest)) := by
  induction rest generalizing g count2 fuel with
  | nil =>
      simp only [members_cons, members_nil, List.length_cons, List.append_nil] at hcount hfuel
      obtain ⟨k, rfl⟩ : ∃ k, fuel = k + g.2.length + 1 := ⟨fuel - (g.2.length + 1), by omega⟩
      have hend : s.next g.1 = none := hmain.1
      rw [writeStats_head (hgroup g List.mem_cons_self) (hpar g List.mem_cons_self) (by omega),
        writeMain, hend, statBytes_cons]
      simp [statBytes, stations, Nat.add_assoc]
  | cons g' rest ih =>
      rw [members_cons g, List.length_cons, List.length_append] at hcount hfuel
      obtain ⟨k, rfl⟩ : ∃ k, fuel = k + g.2.length + 1 := ⟨fuel - (g.2.length + 1), by omega⟩
      have hnext : s.next g.1 = some g'.1 := hmain.1
      have hmore := ih k (count2 + g.2.length + 1) hmain.2
        (fun k' hk' => hgroup k' (List.mem_cons_of_mem g hk'))
        (fun k' hk' => hpar k' (List.mem_cons_of_mem g hk')) (by omega) (by omega)
      rw [writeStats_head (hgroup g List.mem_cons_self) (hpar g List.mem_cons_self) (by omega),
        writeMain, hnext]
      dsimp only
      rw [hmore, Option.map_some, statBytes_cons g, members_cons g, List.length_cons,
        List.length_append]
      dsimp only
      congr 2
      omega

end SystemState

/-! ## Room -/

/-- The bytes of a station's attachments and strings. -/
def StatState.need (st : StatState) : ℕ :=
  4 * st.att.used.length + (st.fname.1.put.length + st.lib.1.put.length + st.classs.1.put.length +
    st.name.1.put.length)

theorem StatState.length_bytes (st : StatState) (parallelHead : Bool) :
    (st.bytes parallelHead).length = 4 * (25 + etStationSelectInts) + st.need := by
  simp [bytes, ints, need, etStationSelectInts]
  omega

theorem ProcState.length_bytes (p : ProcState) : p.bytes.length ≤ SystemState.procRoom := by
  have hmax := p.att.length_used_le
  simp only [bytes, length_putWords, List.length_append, List.length_cons, List.length_nil,
    List.length_map, SystemState.procRoom]
  omega

/-- A buffer for a number and something else. -/
theorem malloced_htonl (n : ℕ) (w : Word) (bs : List Byte) :
    malloced (4 + n) (htonl w ++ bs) = if bs.length ≤ n then some (htonl w ++ bs) else none := by
  simp only [malloced, List.length_append, length_htonl, Nat.add_le_add_iff_left]

/-- Records that are no longer than the room for one fit the room for all. -/
theorem length_flatMap_le {α : Type} {l : List α} {f : α → List Byte} {room : ℕ}
    (h : ∀ a ∈ l, (f a).length ≤ room) : (l.flatMap f).length ≤ l.length * room := by
  induction l with
  | nil => simp
  | cons a l ih =>
      have ha := h a List.mem_cons_self
      have hl := ih fun b hb => h b (List.mem_cons_of_mem a hb)
      rw [List.flatMap_cons, List.length_append, List.length_cons, Nat.succ_mul]
      omega

/-- Records with a fixed part and a rest. -/
theorem length_flatMap_eq {α : Type} {l : List α} {f : α → List Byte} {fixed : ℕ} {need : α → ℕ}
    (h : ∀ a, (f a).length = fixed + need a) :
    (l.flatMap f).length = l.length * fixed + (l.map need).sum := by
  induction l with
  | nil => simp
  | cons a l ih =>
      rw [List.flatMap_cons, List.length_append, ih, h, List.length_cons, Nat.succ_mul,
        List.map_cons, List.sum_cons]
      omega

namespace SystemState

variable (s : SystemState)

/-- The bytes of an attachment's strings. -/
def attNeed (a : AttachState) : ℕ :=
  a.host.1.put.length + (s.stat a.stat.toNat).name.1.put.length + a.interface.1.put.length

theorem length_attBytes (a : AttachState) : (s.attBytes a).length = 4 * 18 + s.attNeed a := by
  simp only [attBytes, attNeed, List.length_append, length_putWords, List.length_cons,
    List.length_nil]
  omega

theorem length_statBytes (gs : List Group) : (s.statBytes gs).length =
    (members gs).length * (4 * (25 + etStationSelectInts)) +
      ((members gs).map fun i => (s.stat i).need).sum := by
  induction gs with
  | nil => simp [statBytes, stations]
  | cons g gs ih =>
      have hgroup := length_flatMap_eq (l := g.2) fun i => (s.stat i).length_bytes false
      rw [statBytes_cons, List.length_append, List.length_append, ih, hgroup,
        StatState.length_bytes, members_cons, List.length_cons, List.length_append, List.map_cons,
        List.map_append, List.sum_cons, List.sum_append]
      ring

/-- **The strings fit.**  The buffer of the stations has room for `ET_ATTACHMENTS_MAX`
attachments and for one function name, one file name and one station name a station, though
there are two file names; the buffer of the attachments has room for one host name and one
station name an attachment, though there is the address of an interface too. -/
structure Fits (gs : List Group) : Prop where
  stats : ((members gs).map fun i => (s.stat i).need).sum ≤ (members gs).length *
    (4 * etAttachmentsMax + etFuncnameLength + etFilenameLength + etStatnameLength)
  atts : (s.usedAtts.map s.attNeed).sum ≤
    s.usedAtts.length * (etMaxhostnamelen + etStatnameLength)

variable {s}

theorem stats_room_iff {gs : List Group} :
    (s.statBytes gs).length ≤ (members gs).length * statRoom ↔
      ((members gs).map fun i => (s.stat i).need).sum ≤ (members gs).length *
        (4 * etAttachmentsMax + etFuncnameLength + etFilenameLength + etStatnameLength) := by
  have hstat : statRoom = 4 * (25 + etStationSelectInts) +
      (4 * etAttachmentsMax + etFuncnameLength + etFilenameLength + etStatnameLength) := rfl
  rw [length_statBytes, hstat, Nat.mul_add (members gs).length (4 * (25 + etStationSelectInts)),
    Nat.add_le_add_iff_left]

theorem atts_room_iff :
    (s.usedAtts.flatMap s.attBytes).length ≤ s.usedAtts.length * attRoom ↔
      (s.usedAtts.map s.attNeed).sum ≤
        s.usedAtts.length * (etMaxhostnamelen + etStatnameLength) := by
  have hatts := length_flatMap_eq (l := s.usedAtts) s.length_attBytes
  have hatt : attRoom = 4 * 18 + (etMaxhostnamelen + etStatnameLength) := rfl
  rw [hatts, hatt, Nat.mul_add s.usedAtts.length (4 * 18), Nat.add_le_add_iff_left]

theorem fits_iff {gs : List Group} : s.Fits gs ↔
    (s.statBytes gs).length ≤ (members gs).length * statRoom ∧
      (s.usedAtts.flatMap s.attBytes).length ≤ s.usedAtts.length * attRoom := by
  rw [stats_room_iff, atts_room_iff]
  exact ⟨fun h => ⟨h.stats, h.atts⟩, fun h => ⟨h.1, h.2⟩⟩

/-! ## Round trip -/

variable {gs : List Group}

/-- **The buffer of the stations**, if it is large enough. -/
theorem etDataStats_eq (h : s.Chain gs) {fuel : ℕ} (hfuel : (members gs).length ≤ fuel) :
    s.etDataStats fuel = malloced (4 + (members gs).length * statRoom)
      (htonl (BitVec.ofNat 32 (members gs).length) ++ s.statBytes gs) := by
  obtain ⟨g, rest, rfl⟩ : ∃ g rest, gs = g :: rest := by
    cases gs with
    | nil => exact nomatch h.gc
    | cons g rest => exact ⟨g, rest, rfl⟩
  have hg : g.1 = 0 := Option.some.inj h.gc
  have hrest : rest.length < fuel := by
    have hle := (heads_sublist_members (g :: rest)).length_le
    simp only [heads, List.length_map, List.length_cons] at hle
    omega
  have hcount := countStations_eq h.main h.group hfuel hrest
  have hwrite := writeStats_chain (members (g :: rest)).length fuel 0 h.main h.group h.parallel (by omega) hfuel
  rw [hg] at hcount hwrite
  rw [etDataStats, hcount, Option.bind_eq_bind, Option.bind_some, hwrite, Option.bind_eq_bind,
    Option.bind_some]
  simp

/-- **Everything is read as it was written.** -/
theorem run_etDataUnpack (h : s.Chain gs) :
    etDataUnpack.run (s.etDataSys ++
      ((htonl (BitVec.ofNat 32 (members gs).length) ++ s.statBytes gs) ++
      ((htonl (BitVec.ofNat 32 s.usedAtts.length) ++ s.usedAtts.flatMap s.attBytes) ++
      (htonl (BitVec.ofNat 32 s.openProcs.length) ++ s.openProcs.flatMap (·.bytes))))) =
      some (s.data gs, []) := by
  have hstats : (BitVec.ofNat 32 (members gs).length).toNat = (s.stations gs).length := by
    rw [BitVec.toNat_ofNat, Nat.mod_eq_of_lt h.length_lt]
    simp [stations, members, List.length_flatMap]
  have hatts : (BitVec.ofNat 32 s.usedAtts.length).toNat = s.usedAtts.length := by
    have hle : s.usedAtts.length ≤ s.nattachmentsMax.toNat := by
      refine (List.length_filter_le _ _).trans_eq ?_
      rw [List.length_map, List.length_range]
    rw [BitVec.toNat_ofNat, Nat.mod_eq_of_lt (hle.trans_lt s.nattachmentsMax.isLt)]
  have hprocs : (BitVec.ofNat 32 s.openProcs.length).toNat = s.openProcs.length := by
    have hle : s.openProcs.length ≤ s.nprocessesMax.toNat := by
      refine (List.length_filter_le _ _).trans_eq ?_
      rw [List.length_map, List.length_range]
    rw [BitVec.toNat_ofNat, Nat.mod_eq_of_lt (hle.trans_lt s.nprocessesMax.isLt)]
  simp only [List.append_assoc]
  refine run_bind_of (s.run_etDataGetsys _) ?_
  refine run_bind_of (run_readWord _ _) ?_
  refine run_bind_of (run_readMany hstats.symm (fun p _ => run_readStat p.1 p.2) _) ?_
  refine run_bind_of (run_readWord _ _) ?_
  refine run_bind_of (run_readMany hatts.symm (fun a _ => s.run_readAtt a) _) ?_
  refine run_bind_of (run_readWord _ _) ?_
  rw [← List.append_nil (s.openProcs.flatMap _)]
  exact run_bind_of (run_readMany hprocs.symm (fun p _ => run_readProc p) _) rfl

/-- What is written when everything fits. -/
theorem snapshot_eq (h : s.Chain gs) {fuel : ℕ} (hfuel : (members gs).length ≤ fuel) :
    (s.Fits gs → ∃ bytes, s.snapshot fuel = some bytes ∧
      etDataUnpack.run bytes = some (s.data gs, [])) ∧
    (¬ s.Fits gs → s.snapshot fuel = none) := by
  have hprocs : s.etDataProcs = some _ :=
    (malloced_htonl _ _ _).trans (if_pos (length_flatMap_le fun p _ => p.length_bytes))
  rw [fits_iff, snapshot, etDataStats_eq h hfuel, hprocs, etDataAtts, malloced_htonl,
    malloced_htonl]
  constructor
  · rintro ⟨hstats, hatts⟩
    rw [if_pos hstats, if_pos hatts]
    exact ⟨_, rfl, run_etDataUnpack h⟩
  · intro hno
    split
    case isTrue hstats =>
      split
      case isTrue hatts => exact absurd ⟨hstats, hatts⟩ hno
      case isFalse => rfl
    case isFalse => rfl

/-- Attachments and strings of some stations: a station's strings have 296 bytes at most. -/
theorem sum_need_le (l : List ℕ) : (l.map fun i => (s.stat i).need).sum ≤
    4 * (l.map fun i => (s.stat i).att.used.length).sum + 296 * l.length := by
  induction l with
  | nil => simp
  | cons i l ih =>
      have hfname : (s.stat i).fname.1.bytes.length < 48 := (s.stat i).fname.2
      have hlib : (s.stat i).lib.1.bytes.length < 100 := (s.stat i).lib.2
      have hclasss : (s.stat i).classs.1.bytes.length < 100 := (s.stat i).classs.2
      have hname : (s.stat i).name.1.bytes.length < 48 := (s.stat i).name.2
      simp only [List.map_cons, List.sum_cons, List.length_cons, StatState.need,
        CStr.length_put] at ih ⊢
      omega

/-- **The stations of a consistent system fit**: an attachment is at one station only, and
GRAND_CENTRAL has no function and no library. -/
theorem stats_fit (h : s.Chain gs)
    (hatts : ((members gs).flatMap fun i => (s.stat i).att.used).Nodup)
    (hgc : (s.stat 0).need ≤ 4 * (s.stat 0).att.used.length +
      (etFuncnameLength + etFilenameLength + etStatnameLength)) :
    ((members gs).map fun i => (s.stat i).need).sum ≤ (members gs).length *
      (4 * etAttachmentsMax + etFuncnameLength + etFilenameLength + etStatnameLength) := by
  obtain ⟨rest, hrest⟩ : ∃ rest, members gs = 0 :: rest := by
    cases gs with
    | nil => exact nomatch h.gc
    | cons g gs => exact ⟨_, by rw [members_cons, ← Option.some.inj h.gc]⟩
  have hused : ((members gs).map fun i => (s.stat i).att.used.length).sum ≤ 100 := by
    have hcard := hatts.length_le_card
    rwa [List.length_flatMap, Fintype.card_fin] at hcard
  have hmore := sum_need_le (s := s) rest
  have hconst : 4 * etAttachmentsMax + etFuncnameLength + etFilenameLength + etStatnameLength =
      596 := rfl
  have hgc' : (s.stat 0).need ≤ 4 * (s.stat 0).att.used.length + 196 := hgc
  rw [hrest] at hused ⊢
  rw [hconst]
  simp only [List.map_cons, List.sum_cons, List.length_cons] at hused ⊢
  omega

end SystemState

/-- **Exactly when a monitor has the state of the system**: every station of the chain in
order, every attachment in use, every open process, and all their values, with no byte left. -/
theorem snapshot_roundTrip_iff {s : SystemState} {gs : List Group} (h : s.Chain gs) {fuel : ℕ}
    (hfuel : (members gs).length ≤ fuel) :
    (∃ bytes, s.snapshot fuel = some bytes ∧ etDataUnpack.run bytes = some (s.data gs, [])) ↔
      s.Fits gs := by
  obtain ⟨hfits, hno⟩ := SystemState.snapshot_eq h hfuel
  constructor
  · rintro ⟨bytes, hbytes, -⟩
    by_contra hnot
    rw [hno hnot] at hbytes
    exact nomatch hbytes
  · exact hfits

/-! ### A system with one attachment -/

/-- A string of `n` letters. -/
def letters (n : ℕ) : CStr where
  bytes := List.replicate n 97
  nulFree h := absurd (List.eq_of_mem_replicate h) (by decide)

/-- A string that fits. -/
def lettersOf {m : ℕ} (n : ℕ) (h : n < m) : Str m := ⟨letters n, by simpa [letters] using h⟩

@[simp] theorem length_lettersOf {m n : ℕ} (h : n < m) :
    (lettersOf n h : Str m).1.bytes.length = n := List.length_replicate

/-- A table with attachment 0. -/
def AttTable.single : AttTable where
  entry i := if (i : ℕ) = 0 then 0 else -1
  index i := by
    by_cases h : (i : ℕ) = 0
    · right
      rw [if_pos h, h]
      rfl
    · left
      rw [if_neg h]

/-- GRAND_CENTRAL under another name. -/
def StatState.only (name : Str etStatnameLength) : StatState where
  num := 0
  status := 0
  mutex := 0
  att := .single
  inMutex := 0
  inCnt := 0
  eventsTry := 0
  eventsIn := 0
  outMutex := 0
  outCnt := 0
  eventsOut := 0
  flowMode := .serial
  userMode := 0
  restoreMode := 0
  blockMode := 0
  prescale := 0
  cue := 0
  selectMode := 0
  select := default
  fname := ⟨.empty, by decide⟩
  lib := ⟨.empty, by decide⟩
  classs := ⟨.empty, by decide⟩
  name := name

/-- A system of one station with one attachment, from a host and an address with names of
`host` and `interface` letters, to a station with a name of `name` letters. -/
def SystemState.one (host : Str etMaxhostnamelen) (name : Str etStatnameLength)
    (interface : Str etIpaddrstrlen) : SystemState where
  alive := 1
  heartbeat := 1
  ntemps := 0
  nstations := 1
  nattachments := 1
  nprocesses := 0
  mutex := 0
  statMutex := 0
  stataddMutex := 0
  endian := 0
  share := 0
  mainpid := 0
  nselects := 6
  nevents := 1
  eventSize := 1
  bit64 := 1
  ntempsMax := 1
  nstationsMax := 1
  nattachmentsMax := 1
  nprocessesMax := 1
  tcpPort := 0
  port := 0
  netinfo := ⟨[], by decide⟩
  mcastaddrs := ⟨[], by decide⟩
  filename := ⟨.empty, by decide⟩
  owner _ := -1
  stat _ := .only name
  next _ := none
  nextparallel _ := none
  attach _ := ⟨true, 0, 0, 0, 0, 0, 0, 0, 0, 0, 0, host, interface⟩
  proc _ := ⟨false, 0, 0, 0, .single⟩

theorem SystemState.one_chain (host : Str etMaxhostnamelen) (name : Str etStatnameLength)
    (interface : Str etIpaddrstrlen) : (one host name interface).Chain [(0, [])] where
  gc := rfl
  main := ⟨rfl, trivial⟩
  group g hg := by
    rw [List.mem_singleton.mp hg]
    rfl
  parallel g hg i hi := by
    rw [List.mem_singleton.mp hg] at hi
    exact nomatch hi
  nodup := by decide
  bound i hi := by
    rw [List.mem_singleton.mp hi]
    exact Nat.zero_lt_one

/-- Its attachment fits if the three names do. -/
theorem SystemState.one_atts (host : Str etMaxhostnamelen) (name : Str etStatnameLength)
    (interface : Str etIpaddrstrlen) :
    ((one host name interface).usedAtts.map (one host name interface).attNeed).sum ≤
        (one host name interface).usedAtts.length * (etMaxhostnamelen + etStatnameLength) ↔
      host.1.put.length + name.1.put.length + interface.1.put.length ≤ 304 := by
  have hused : (one host name interface).usedAtts = [(one host name interface).attach 0] := by
    rfl
  have hneed : (one host name interface).attNeed ((one host name interface).attach 0) =
      host.1.put.length + name.1.put.length + interface.1.put.length := rfl
  have hroom : etMaxhostnamelen + etStatnameLength = 304 := rfl
  rw [hused, List.map_singleton, List.sum_singleton, hneed, List.length_singleton, Nat.one_mul,
    hroom]

/-- Its station fits. -/
theorem SystemState.one_stats (host : Str etMaxhostnamelen) (name : Str etStatnameLength)
    (interface : Str etIpaddrstrlen) : ((members [(0, [])]).map fun i =>
      ((one host name interface).stat i).need).sum ≤ (members [(0, [])]).length *
        (4 * etAttachmentsMax + etFuncnameLength + etFilenameLength + etStatnameLength) := by
  have hname : name.1.bytes.length < 48 := name.2
  refine stats_fit (one_chain host name interface) ?_ ?_
  · rw [members_cons, members_nil, List.append_nil, List.flatMap_singleton]
    exact (List.nodup_finRange _).filter _
  · show 4 * _ + (1 + 1 + 1 + name.1.put.length) ≤ 4 * _ + 196
    rw [CStr.length_put]
    omega

/-- Names of usual lengths. -/
def SystemState.usualNames : SystemState :=
  .one (lettersOf 12 (by decide)) (lettersOf 13 (by decide)) (lettersOf 13 (by decide))

/-- A host name of 255 characters, a station name of 47 and an address of 13. -/
def SystemState.longNames : SystemState :=
  .one (lettersOf 255 (by decide)) (lettersOf 47 (by decide)) (lettersOf 13 (by decide))

theorem snapshot_roundTrip_example :
    ∃ bytes, SystemState.usualNames.snapshot 1 = some bytes ∧
      etDataUnpack.run bytes = some (SystemState.usualNames.data [(0, [])], []) := by
  refine (snapshot_roundTrip_iff (SystemState.one_chain _ _ _) le_rfl).mpr ⟨?_, ?_⟩
  · exact SystemState.one_stats _ _ _
  · refine (SystemState.one_atts _ _ _).mpr ?_
    simp

/-- **Names that do not fit the buffer**: they need 318 bytes with their zero bytes, and there
are 304. -/
theorem long_names_not_sent :
    ¬ ∃ bytes, SystemState.longNames.snapshot 1 = some bytes ∧
      etDataUnpack.run bytes = some (SystemState.longNames.data [(0, [])], []) := by
  have hchain : SystemState.longNames.Chain [(0, [])] := SystemState.one_chain _ _ _
  have hno : ¬ SystemState.longNames.Fits [(0, [])] := by
    intro hfits
    have hatts := (SystemState.one_atts _ _ _).mp hfits.atts
    simp at hatts
  rintro ⟨bytes, hbytes, -⟩
  have hnone : SystemState.longNames.snapshot 1 = none :=
    (SystemState.snapshot_eq hchain le_rfl).2 hno
  rw [hnone] at hbytes
  exact nomatch hbytes

end EventTransfer
