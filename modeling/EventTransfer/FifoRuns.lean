import EventTransfer.FifoCalls

/-!
# Runs of a FIFO

Any number of producers and consumers and the conductors of the two stations work on a FIFO.  The
priorities of the buffers are left alone; what else is in a buffer's header, processes write only
while they have its entry in hand.

* `FifoOk` — every list consists of whole entries, and consumers get them as producers put them.
* `fifo_entries_whole` — no call gets fewer buffers than those of one entry.
* `fifo_in_order` — each entry that is got is one that was put, in the order of the puts.
* `fifo_blocking_keeps` — a blocking FIFO with a consumer drops none.
-/

namespace EventTransfer

open Places Chunks StepRun EventSystem

/-- **A buffer** as another process finds it: the event, its length and its control words. -/
structure FifoBuffer where
  event : ℕ
  length : ℕ
  control : List ℤ
  deriving DecidableEq, Repr

/-- The buffers of an entry. -/
def EventSystem.buffers (s : EventSystem) (bufs : List ℕ) : List FifoBuffer :=
  bufs.map fun e => ⟨e, (s.hdr e).length, (s.hdr e).control⟩

/-! ## The machine -/

/-- **A FIFO with its processes**: the FIFO ids that are open, the entries in hand, and what the
producers have put and the consumers have got so far. -/
structure FifoRun where
  sys : EventSystem
  ctxs : List FifoCtx
  entries : List FifoEntry
  puts : List (List FifoBuffer)
  gots : List (List FifoBuffer)

/-- The steps of the processes and of the conductors.  With `fill` a process writes to a buffer of
an entry it has in hand. -/
inductive FifoStep
  | openFifo (isProducer : Bool) (bufIds : List ℤ)
  | newEntry (fid : FifoCtx) (wait : FifoWait) (os : OsAnswers)
  | getEntry (fid : FifoCtx) (wait : FifoWait) (os : OsAnswers)
  | putEntry (entry : FifoEntry) (os : OsAnswers)
  | fill (e : ℕ) (length : ℕ) (control : List ℤ)
  | conduct (me : Fin 2) (select : ℕ → ℕ → Bool) (eventsTry : ℕ → ℕ) (os : OsAnswers)

/-- The state after a step. -/
def FifoRun.next (cfg : EventConfig) (r : FifoRun) : FifoStep → Option FifoRun
  | .openFifo isProducer bufIds =>
      let q := etFifoOpen cfg r.sys isProducer bufIds
      match q.1 with
      | .ok fid => some { r with sys := q.2, ctxs := fid :: r.ctxs }
      | .error _ => some { r with sys := q.2 }
  | .newEntry fid wait os =>
      if fid ∈ r.ctxs then
        let q := r.sys.etFifoNewEntry cfg os.alone fid wait
        if q.1 = .ok then some { r with sys := q.2.2, entries := ⟨q.2.1, fid⟩ :: r.entries }
        else some { r with sys := q.2.2 }
      else none
  | .getEntry fid wait os =>
      if fid ∈ r.ctxs then
        let q := r.sys.etFifoGetEntry os.alone fid wait
        if q.1 = .ok then
          some { r with
            sys := q.2.2
            entries := ⟨q.2.1, fid⟩ :: r.entries
            gots := r.gots ++ [q.2.2.buffers q.2.1] }
        else some { r with sys := q.2.2 }
      else none
  | .putEntry entry os =>
      if entry ∈ r.entries then
        let q := r.sys.etFifoPutEntry cfg os.alone entry
        if q.1 = .ok then
          some { r with
            sys := q.2
            entries := r.entries.erase entry
            puts := if entry.fid.producer then r.puts ++ [q.2.buffers entry.bufs] else r.puts }
        else some { r with sys := q.2 }
      else none
  | .fill e length control =>
      if ∃ entry ∈ r.entries, e ∈ entry.bufs then
        some { r with
          sys := r.sys.setHdr e { r.sys.hdr e with length := length, control := control } }
      else none
  | .conduct me select eventsTry os =>
      (r.sys.pass cfg select fifoChain me eventsTry).map fun u =>
        { r with sys := r.sys.afterPass os me u }

/-- **The machine of a FIFO** that `et_start_fifo` has started. -/
def fifoMachine (o : FifoOptions) (cfg : EventConfig) : Machine FifoRun FifoStep where
  start r := o.Started cfg r.sys ∧ r.ctxs = [] ∧ r.entries = [] ∧ r.puts = [] ∧ r.gots = []
  step r a t := r.next cfg a = some t

/-- No entry gets lost: the FIFO is blocking, and a consumer is attached whenever the conductor of
GRAND_CENTRAL passes. -/
def FifoStep.Keeps (o : FifoOptions) (r : FifoRun) : FifoStep → Prop
  | .conduct 0 _ _ _ => o.blocking = true ∧ r.sys.stations.status 1 = .active
  | _ => True

/-! ## Entries -/

namespace EventSystem

variable {s t u : EventSystem} {cfg : EventConfig} {os : OsAnswers} {o : FifoOptions} {k : ℕ}
  {l : ListName} {att : ℤ} {c : List ℕ} {x : ListName → List (List ℕ)}

theorem buffers_congr (h : ∀ e ∈ c, SameButAge (s.hdr e) (t.hdr e)) : t.buffers c = s.buffers c :=
  List.map_congr_left fun e he => by rw [(h e he).1, (h e he).2.1]

/-- **Every list consists of whole entries.** -/
def Whole (k : ℕ) (x : ListName → List (List ℕ)) (s : EventSystem) : Prop :=
  ∀ l, Chunked k (x l) (s.list l)

theorem Whole.congr (h : s.Whole k x) (hlist : t.list = s.list) : t.Whole k x :=
  fun l => hlist ▸ h l

theorem Whole.update {cs : List (List ℕ)} {xs : List ℕ} (h : s.Whole k x)
    (hlist : t.list = Function.update s.list l xs) (hcs : Chunked k cs xs) :
    t.Whole k (Function.update x l cs) := by
  intro m
  rw [hlist]
  rcases eq_or_ne m l with rfl | hne
  · rw [Function.update_self, Function.update_self]
    exact hcs
  · rw [Function.update_of_ne hne, Function.update_of_ne hne]
    exact h m

/-- The entries that are on their way to "Users", or wait there. -/
def pending (x : ListName → List (List ℕ)) : List (List ℕ) := x (.input 1) ++ x (.output 0)

theorem Whole.pending_mem {e : ℕ} (h : s.Whole k x) (hc : c ∈ pending x) (he : e ∈ c) :
    ∃ l, e ∈ s.list l := by
  rcases List.mem_append.mp hc with hc | hc
  · exact ⟨_, (h _).mem hc he⟩
  · exact ⟨_, (h _).mem hc he⟩

/-- The buffers of listed events are as they were. -/
theorem Whole.map_buffers (h : s.Whole k x)
    (hhdr : ∀ l, ∀ e ∈ s.list l, SameButAge (s.hdr e) (t.hdr e)) :
    (pending x).map t.buffers = (pending x).map s.buffers := by
  refine List.map_congr_left fun c hc => buffers_congr fun e he => ?_
  obtain ⟨l, hl⟩ := h.pending_mem hc he
  exact hhdr l e hl

/-- **An entry is taken** from the front of a list. -/
structure EntryTaken (s t : EventSystem) (l : ListName) (att : ℤ) (k : ℕ) (c : List ℕ) : Prop where
  first : c = (s.list l).take k
  nonempty : c ≠ []
  list : t.list = Function.update s.list l ((s.list l).drop k)
  owner : ∀ e, t.owner e = if e ∈ c then att else s.owner e
  hdr : ∀ e ∉ c, t.hdr e = s.hdr e
  lasthigh : t.lasthigh = s.lasthigh
  stations : t.stations = s.stations
  attach : t.attach = s.attach

theorem EntryTaken.of_same {a : ReadArgs} {ps : ℕ} (hnone : s.taken a (.nread k) ps ≠ [])
    (h : OnlyHeaders (s.taken a (.nread k) ps) (s.afterRead a (.nread k) ps) t) :
    EntryTaken s t (.input ps) a.att k (s.taken a (.nread k) ps) := by
  obtain ⟨hfirst, hlist⟩ := afterRead_list hnone
  refine ⟨hfirst, hnone, h.same.list.trans hlist, fun e => ?_, h.hdr, h.same.lasthigh,
    h.same.stations, h.same.attach⟩
  rw [h.same.owner]
  rfl

/-- What holds of the system behind a FIFO. -/
structure FifoState (o : FifoOptions) (cfg : EventConfig) (s : EventSystem) : Prop where
  inPlace : AllInPlace cfg s
  plain : s.Plain
  lasthigh : ∀ ps, s.lasthigh ps = 0
  chain : ChainOk s.stations fifoChain
  users : s.stations.config 1 = o.usersConfig
  exists_users : stationExists cfg.toSysConfig s.stations "Users" = some 1

/-- **An open FIFO id.** -/
structure Opened (o : FifoOptions) (cfg : EventConfig) (s : EventSystem) (fid : FifoCtx) :
    Prop where
  capacity : fid.capacity = o.entryCount
  userEntries : fid.userEntries = o.usersConfig.cue
  evSize : fid.evSize = cfg.eventSize
  userStatId : fid.userStatId = 1
  attached : s.Attached fid.attId
  station : s.statOf fid.attId = if fid.producer then 0 else 1

theorem Opened.congr {fid : FifoCtx} (h : s.Opened o cfg fid) (hattach : t.attach = s.attach) :
    t.Opened o cfg fid := by
  refine ⟨h.capacity, h.userEntries, h.evSize, h.userStatId, ?_, ?_⟩
  · unfold Attached
    rw [hattach]
    exact h.attached
  · unfold statOf
    rw [hattach]
    exact h.station

/-! ### Getting an entry -/

/-- All buffers of the call are from one entry. -/
theorem Whole.take_length (h : s.Whole k x) (hne : (s.list l).take k ≠ []) :
    ((s.list l).take k).length = k := by
  obtain ⟨c, rest, hx, hc, -⟩ := (h l).exists_first fun hnil => hne (by rw [hnil, List.take_nil])
  have hmem : c ∈ x l := hx ▸ List.mem_cons_self
  rw [hc]
  exact (h l).length c hmem

theorem initOwn_plain (hs : s.Plain) (size e : ℕ) : (s.initOwn cfg size e).Plain :=
  hs.setHdr rfl rfl

theorem initOwn_onlyHeaders {e : ℕ} (size : ℕ) (he : e ∈ c) :
    OnlyHeaders c s (s.initOwn cfg size e) :=
  ⟨⟨rfl, rfl, rfl, rfl, rfl, rfl⟩, fun _ hx =>
    Function.update_of_ne (ne_of_mem_of_not_mem he hx).symm ..⟩

/-- **A new entry** is a whole one, or the call has done nothing. -/
theorem etFifoNewEntry_cases {fid : FifoCtx} (hs : s.FifoState o cfg) (hx : s.Whole o.entryCount x)
    (ho : o.Accepted) (hfid : s.Opened o cfg fid) (wait : FifoWait) :
    ((s.etFifoNewEntry cfg os fid wait).1 ≠ .ok ∧ (s.etFifoNewEntry cfg os fid wait).2 = ([], s)) ∨
      ∃ c t, s.etFifoNewEntry cfg os fid wait = (.ok, c, t) ∧ fid.producer = true ∧
        c.length = o.entryCount ∧ EntryTaken s t (.input 0) fid.attId o.entryCount c ∧ t.Plain := by
  unfold etFifoNewEntry
  split
  case isTrue => exact .inl ⟨error_ne_ok, rfl⟩
  case isFalse hproducer =>
    have hnum : numAvailable cfg fid.evSize fid.capacity = o.entryCount := by
      unfold numAvailable
      rw [if_neg fun h => absurd h.1 (not_lt.mpr hfid.evSize.le), hfid.capacity]
    dsimp only
    rw [hnum, hfid.capacity]
    rcases @etEventsNew_cases s cfg os (fid.readArgs wait) o.entryCount fid.evSize hfid.evSize.le
      ho.2.2.1 with
      ⟨hfail, hsame⟩ | ⟨hatt, hactive, hnone, heq⟩
    · rw [if_pos hfail, hsame]
      exact .inl ⟨hfail, rfl⟩
    · obtain ⟨hfirst, -⟩ := afterRead_list hnone
      have hlen : (s.taken (fid.readArgs wait) (.nread o.entryCount) 0).length = o.entryCount := by
        rw [hfirst] at hnone ⊢
        exact hx.take_length hnone
      rw [heq, if_neg (not_not.mpr rfl), if_neg (not_not.mpr hlen)]
      set c := s.taken (fid.readArgs wait) (.nread o.entryCount) 0
      set u := s.afterRead (fid.readArgs wait) (.nread o.entryCount) 0
      have hinit : OnlyHeaders c u (c.foldl (fun s e => s.initOwn cfg fid.evSize e) u) :=
        OnlyHeaders.foldl (fun _ _ he => initOwn_onlyHeaders _ he) u
      have hplain : u.Plain := hs.plain
      refine .inr ⟨c, _, rfl, by simpa using hproducer, hlen,
        EntryTaken.of_same hnone (hinit.trans (labelBufs_onlyHeaders _ _ c)), ?_⟩
      exact (hplain.foldl (fun _ _ h => initOwn_plain h _ _) c).labelBufs _ _

theorem attachAll_hdr_same (i : ℕ) (pe : List ℕ) (hs : s.Plain) :
    OnlyHeaders c s (s.attachAll os i pe).2 :=
  onlyHeaders_of_hdr attachAll_same (attachAll_plain hs).2 c

/-- **An entry that is got** is a whole one, or the call has done nothing. -/
theorem etFifoGetEntry_cases {fid : FifoCtx} (hs : s.FifoState o cfg) (hx : s.Whole o.entryCount x)
    (ho : o.Accepted) (hfid : s.Opened o cfg fid) (wait : FifoWait) :
    ((s.etFifoGetEntry os fid wait).1 ≠ .ok ∧ (s.etFifoGetEntry os fid wait).2 = ([], s)) ∨
      ∃ c t, s.etFifoGetEntry os fid wait = (.ok, c, t) ∧ fid.producer = false ∧
        c.length = o.entryCount ∧ EntryTaken s t (.input 1) fid.attId o.entryCount c ∧ t.hdr = s.hdr := by
  unfold etFifoGetEntry
  split
  case isTrue => exact .inl ⟨error_ne_ok, rfl⟩
  case isFalse hproducer =>
    have hconsumer : fid.producer = false := by simpa using hproducer
    have hstat : s.statOf (fid.readArgs wait).att = 1 := by
      have := hfid.station
      rwa [hconsumer, if_neg Bool.false_ne_true] at this
    dsimp only
    rw [hfid.capacity, hstat]
    rcases @etEventsGet_cases s os (fid.readArgs wait) o.entryCount hs.plain ho.2.2.1 with
      ⟨hfail, hsame⟩ | ⟨hatt, hactive, hnone, hok, heq⟩
    · rw [if_pos hfail, hsame]
      exact .inl ⟨hfail, rfl⟩
    · rw [hstat] at hnone heq
      obtain ⟨hfirst, -⟩ := afterRead_list hnone
      have hlen : (s.taken (fid.readArgs wait) (.nread o.entryCount) 1).length = o.entryCount := by
        rw [hfirst] at hnone ⊢
        exact hx.take_length hnone
      rw [hok, heq, if_neg (not_not.mpr rfl), if_neg (not_not.mpr hlen)]
      have hplain : (s.afterRead (fid.readArgs wait) (.nread o.entryCount) 1).Plain := hs.plain
      refine .inr ⟨_, _, rfl, hconsumer, hlen,
        EntryTaken.of_same hnone (attachAll_hdr_same 0 _ hplain), ?_⟩
      exact (attachAll_plain hplain).2

/-! ### What the system keeps -/

theorem EntryTaken.fifoState (h : EntryTaken s t l att k c) (hs : s.FifoState o cfg)
    (hplain : t.Plain) {i : ℕ} (hatt : att = i) (hattached : s.Attached i) :
    t.FifoState o cfg := by
  have hperm : (c ++ (s.list l).drop k).Perm (s.list l) := by
    rw [h.first, List.take_append_drop]
  refine ⟨?_, hplain, by rw [h.lasthigh]; exact hs.lasthigh, h.stations ▸ hs.chain,
    h.stations ▸ hs.users, h.stations ▸ hs.exists_users⟩
  have hmoved := Conserved.congr (Conserved.take hs.inPlace hperm att) h.list (funext h.owner)
  have hattach : t.Attached = s.Attached := by
    unfold Attached
    rw [h.attach]
  unfold AllInPlace
  rw [hattach]
  refine hmoved.mono fun e _ hplace => ?_
  rcases hplace with hheld | hno | hin
  · exact .inl hheld
  · exact absurd hno id
  · refine .inl ⟨i, hattached, ?_⟩
    rw [h.owner, if_pos hin, hatt]

theorem BuffersPut.fifoState {ps : ℕ} (h : BuffersPut s t ps c) (hs : s.FifoState o cfg)
    (haccepts : s.Accepts att c) (hnodup : c.Nodup) : t.FifoState o cfg := by
  have hputs : Puts s t (.output ps) c := ⟨⟨_, .refl _, h.list⟩, h.owner, h.attach⟩
  refine ⟨hs.inPlace.puts haccepts hnodup hputs, fun e => ?_, fun qs => ?_, h.stations ▸ hs.chain,
    h.stations ▸ hs.users, h.stations ▸ hs.exists_users⟩
  · obtain ⟨-, -, hpriority, htemp⟩ := h.hdr e
    rw [hpriority, htemp]
    exact hs.plain e
  · rw [h.lasthigh, Function.update_apply]
    split
    · rfl
    · exact hs.lasthigh qs

/-- A pass after which the tables of stations are as they were. -/
theorem FifoState.afterPass {select : ℕ → ℕ → Bool} {eventsTry : ℕ → ℕ} {me : ℕ} {u : Pass}
    (hs : s.FifoState o cfg) (ho : o.Accepted) (hme : me ∈ members fifoChain)
    (hu : s.pass cfg select fifoChain me eventsTry = some u) (hstations : u.stations = s.stations) :
    (s.afterPass os me u).FifoState o cfg := by
  have hserial : ∀ w : Pass, w.stations = s.stations → w.DealsWell (1, []) := by
    intro w hw _ _ hno
    refine absurd ?_ hno
    rintro ⟨hparallel, -⟩
    unfold Stations.isParallel at hparallel
    rw [hw, hs.users, (o.usersConfig_cases ho).1] at hparallel
    cases hparallel
  have hwell : (s.passStart eventsTry me).AllDealWell s.hdr cfg.nevents select
      (following fifoChain me) := by
    have hcases : me = 0 ∨ me = 1 := by simpa [members, fifoChain] using hme
    rcases hcases with rfl | rfl
    · exact ⟨hserial _ rfl, fun _ _ => trivial⟩
    · trivial
  obtain ⟨given, hpassed, -⟩ := pass_passedOn hs.inPlace hs.chain hme hwell hu os
  have hhdr : (s.afterPass os me u).hdr = s.hdr := dropAll_hdr s true os _
  refine ⟨hs.inPlace.conduct hpassed, fun e => hhdr ▸ hs.plain e, fun ps => ?_, ?_, ?_, ?_⟩
  · show Function.update s.lasthigh me 0 ps = 0
    rw [Function.update_apply]
    split
    · rfl
    · exact hs.lasthigh ps
  · show ChainOk u.stations fifoChain
    rw [hstations]
    exact hs.chain
  · show u.stations.config 1 = _
    rw [hstations]
    exact hs.users
  · show stationExists _ u.stations _ = _
    rw [hstations]
    exact hs.exists_users

/-- **What an attach leaves alone**: all but the attachments, and the status of the station. -/
structure AttachOnly (s t : EventSystem) : Prop where
  list : t.list = s.list
  hdr : t.hdr = s.hdr
  owner : t.owner = s.owner
  lasthigh : t.lasthigh = s.lasthigh
  attach : ∀ i, s.Attached i → t.attach i = s.attach i
  stations : ∃ n st, t.stations = { s.stations with nattachments := n, status := st } ∧
    ∀ ps, st ps = .unused ↔ s.stations.status ps = .unused

theorem AttachOnly.refl (s : EventSystem) : AttachOnly s s :=
  ⟨rfl, rfl, rfl, rfl, fun _ _ => rfl, _, _, rfl, fun _ => Iff.rfl⟩

/-- **`et_station_attach`**: it fails, or takes the first free place in the array of attachments. -/
theorem etStationAttach_cases (s : EventSystem) (cfg : EventConfig) (ps : ℕ) :
    ((s.etStationAttach cfg ps).1 ≠ .ok ∧ (s.etStationAttach cfg ps).2 = s) ∨
      (s.etStationAttach cfg ps).1 = .ok ∧ AttachOnly s (s.etStationAttach cfg ps).2 ∧
        (s.etStationAttach cfg ps).2.attach
          (((List.range cfg.nattachments).find? fun i => !(s.attach i).active).getD 0) =
            ⟨true, some ps⟩ := by
  unfold etStationAttach
  split
  · exact .inl ⟨error_ne_ok, rfl⟩
  have htoomany : Ret.errorToomany ≠ .ok := by decide
  split
  · exact .inl ⟨error_ne_ok, rfl⟩
  case isFalse hused =>
    split
    · exact .inl ⟨htoomany, rfl⟩
    split
    · exact .inl ⟨htoomany, rfl⟩
    split
    case h_1 => exact .inl ⟨error_ne_ok, rfl⟩
    case h_2 i hi =>
      refine .inr ⟨rfl, ⟨rfl, rfl, rfl, rfl, fun j hj => ?_, _, _, rfl, fun qs => ?_⟩, ?_⟩
      · refine Function.update_of_ne ?_ ..
        rintro rfl
        have hfree := List.find?_some hi
        rw [show (s.attach j).active = true from hj] at hfree
        exact Bool.false_ne_true hfree
      · rcases eq_or_ne qs ps with rfl | hne
        · rw [Function.update_self]
          have hin := not_not.mp hused
          constructor
          · exact fun h => by cases h
          · intro h
            rcases hin with hin | hin
            · rw [hin] at h
              cases h
            · rw [hin] at h
              cases h
        · rw [Function.update_of_ne hne]
      · rw [hi]
        exact Function.update_self ..

theorem AttachOnly.allInPlace (h : AttachOnly s t) (hs : AllInPlace cfg s) : AllInPlace cfg t := by
  refine Conserved.mono (Conserved.congr hs h.list h.owner) fun e _ hplace => ?_
  rcases hplace with ⟨att, hatt, howner⟩ | hno
  · refine .inl ⟨att, ?_, howner⟩
    unfold Attached at hatt ⊢
    rwa [h.attach att hatt]
  · exact absurd hno id

theorem AttachOnly.fifoState (h : AttachOnly s t) (hs : s.FifoState o cfg) : t.FifoState o cfg := by
  obtain ⟨n, st, hstations, hunused⟩ := h.stations
  have hplain : t.Plain := by
    unfold Plain
    rw [h.hdr]
    exact hs.plain
  refine ⟨h.allInPlace hs.inPlace, hplain, by rw [h.lasthigh]; exact hs.lasthigh, ?_, ?_, ?_⟩
  · rw [hstations]
    exact hs.chain.congr (fun _ _ => rfl) (fun _ _ => rfl) (fun _ _ => rfl) (fun _ _ => rfl)
      (fun _ _ => rfl) rfl
  · rw [hstations]
    exact hs.users
  · rw [← hs.exists_users, hstations]
    unfold stationExists
    congr 1
    funext i
    simp [hunused]

theorem AttachOnly.opened (h : AttachOnly s t) {fid : FifoCtx} (hfid : s.Opened o cfg fid) :
    t.Opened o cfg fid := by
  refine ⟨hfid.capacity, hfid.userEntries, hfid.evSize, hfid.userStatId, ?_, ?_⟩
  · unfold Attached
    rw [h.attach _ hfid.attached]
    exact hfid.attached
  · rw [← hfid.station]
    unfold statOf
    rw [Int.toNat_natCast, h.attach _ hfid.attached]

/-- **Opening a FIFO**: the system gets an attachment at most. -/
theorem etFifoOpen_cases (hs : s.FifoState o cfg) (ho : o.Accepted) (hcfg : o.Configures cfg)
    (isProducer : Bool) (bufIds : List ℤ) :
    AttachOnly s (etFifoOpen cfg s isProducer bufIds).2 ∧
      ∀ fid, (etFifoOpen cfg s isProducer bufIds).1 = .ok fid →
        (etFifoOpen cfg s isProducer bufIds).2.Opened o cfg fid := by
  have hcapacity : cfg.nevents / cfg.groupCount = o.entryCount := by
    rw [hcfg.nevents, hcfg.groupCount]
    exact Nat.mul_div_cancel_left _ (by have := ho.1; omega)
  have hnothing : ∀ x : FifoError, AttachOnly s s ∧ ∀ fid, Except.error x = .ok fid →
      s.Opened o cfg fid :=
    fun x => ⟨.refl s, fun fid h => by cases h⟩
  unfold etFifoOpen
  split
  · exact hnothing _
  dsimp only
  split
  · exact hnothing _
  split
  · exact hnothing _
  rw [hs.exists_users]
  dsimp only
  rcases s.etStationAttach_cases cfg (if isProducer then 0 else 1) with
    ⟨hfail, hsame⟩ | ⟨hok, honly, hnew⟩
  · rw [if_pos hfail, hsame]
    exact hnothing _
  · rw [if_neg (not_not.mpr hok)]
    split
    · exact ⟨honly, fun fid h => by cases h⟩
    · refine ⟨honly, fun fid h => ?_⟩
      obtain rfl := Except.ok.inj h
      refine ⟨hcapacity, congrArg StatConfig.cue hs.users, rfl, rfl, ?_, ?_⟩
      · exact congrArg Attachment.active hnew
      · unfold statOf
        rw [Int.toNat_natCast, hnew]
        rfl

end EventSystem

/-! ## The invariant -/

/-- **An entry in hand**: its buffers belong to the attachment. -/
structure FifoEntry.InHand (o : FifoOptions) (s : EventSystem) (ctxs : List FifoCtx)
    (entry : FifoEntry) : Prop where
  ctx : entry.fid ∈ ctxs
  length : entry.bufs.length = o.entryCount
  nodup : entry.bufs.Nodup
  owner : ∀ e ∈ entry.bufs, s.owner e = entry.fid.attId

/-- **What the processes have in hand.** -/
structure FifoHands (o : FifoOptions) (cfg : EventConfig) (s : EventSystem) (ctxs : List FifoCtx)
    (entries : List FifoEntry) : Prop where
  state : s.FifoState o cfg
  opened : ∀ fid ∈ ctxs, s.Opened o cfg fid
  inHand : ∀ entry ∈ entries, entry.InHand o s ctxs
  apart : entries.Pairwise fun a b => a.bufs.Disjoint b.bufs

/-- What is left of a list of things, in the same order; or all of it. -/
structure Among {β : Type} (keeps : Prop) (xs ys : List β) : Prop where
  sublist : xs.Sublist ys
  all : keeps → xs = ys

/-- **What has been put and got.**  The entries that consumers have got, those that wait in "Users",
and those that are on their way there, are entries that producers have put, in that order; with
`keeps` they are all of them. -/
def Records (o : FifoOptions) (keeps : Prop) (s : EventSystem) (gots puts : List (List FifoBuffer)) :
    Prop :=
  ∃ x, s.Whole o.entryCount x ∧ Among keeps (gots ++ (pending x).map s.buffers) puts

/-- **The invariant of a FIFO.** -/
structure FifoOk (o : FifoOptions) (cfg : EventConfig) (keeps : Prop) (r : FifoRun) : Prop where
  hands : FifoHands o cfg r.sys r.ctxs r.entries
  cue : o.blocking = false → ((r.sys.list (.input 1)).length : ℤ) ≤ o.usersConfig.cue
  records : Records o keeps r.sys r.gots r.puts

section Steps

variable {o : FifoOptions} {cfg : EventConfig} {keeps : Prop} {r : FifoRun} {s t : EventSystem}
  {ctxs : List FifoCtx} {entries : List FifoEntry} {entry : FifoEntry} {fid : FifoCtx}
  {c : List ℕ} {l : ListName} {os : OsAnswers} {x : ListName → List (List ℕ)}
  {gots puts : List (List FifoBuffer)}

theorem Among.append {β : Type} {xs ys : List β} (h : Among keeps xs ys) (zs : List β) :
    Among keeps (xs ++ zs) (ys ++ zs) :=
  ⟨h.sublist.append (.refl zs), fun hk => by rw [h.all hk]⟩

theorem Among.trans {β : Type} {xs ys zs : List β} (h : Among keeps xs ys)
    (h' : Among keeps ys zs) : Among keeps xs zs :=
  ⟨h.sublist.trans h'.sublist, fun hk => (h.all hk).trans (h'.all hk)⟩

/-- What a process has in hand is in no list. -/
theorem FifoEntry.InHand.notMem (h : entry.InHand o s ctxs) (hs : AllInPlace cfg s) {e : ℕ}
    (he : e ∈ entry.bufs) (l : ListName) : e ∉ s.list l :=
  Conserved.notMem hs (Int.natCast_nonneg _) (h.owner e he) l

theorem FifoEntry.InHand.congr (h : entry.InHand o s ctxs)
    (howner : ∀ e ∈ entry.bufs, t.owner e = s.owner e) : entry.InHand o t ctxs :=
  ⟨h.ctx, h.length, h.nodup, fun e he => (howner e he).trans (h.owner e he)⟩

/-- What is in hand stays there when nothing is taken or put. -/
theorem FifoHands.congr (h : FifoHands o cfg s ctxs entries) (hstate : t.FifoState o cfg)
    (howner : t.owner = s.owner) (hattach : t.attach = s.attach) :
    FifoHands o cfg t ctxs entries :=
  ⟨hstate, fun fid hfid => (h.opened fid hfid).congr hattach,
    fun entry he => (h.inHand entry he).congr fun _ _ => congrFun howner _, h.apart⟩

/-- **An entry is taken in hand.** -/
theorem FifoHands.take (h : FifoHands o cfg s ctxs entries) (hfid : fid ∈ ctxs)
    (htaken : EntryTaken s t l fid.attId o.entryCount c) (hplain : t.Plain)
    (hlen : c.length = o.entryCount) : FifoHands o cfg t ctxs (⟨c, fid⟩ :: entries) := by
  have hlisted : ∀ e ∈ c, e ∈ s.list l := fun e he => List.mem_of_mem_take (htaken.first ▸ he)
  have hapart : ∀ entry ∈ entries, ∀ e ∈ entry.bufs, e ∉ c := fun entry hentry e he hc =>
    (h.inHand entry hentry).notMem h.state.inPlace he l (hlisted e hc)
  refine ⟨htaken.fifoState h.state hplain rfl (h.opened fid hfid).attached,
    fun f hf => (h.opened f hf).congr htaken.attach, fun entry hentry => ?_, ?_⟩
  · rcases List.mem_cons.mp hentry with rfl | hentry
    · refine ⟨hfid, hlen, ?_, fun e he => ?_⟩
      · rw [htaken.first]
        exact (h.state.inPlace.separate.nodup l).sublist (List.take_sublist ..)
      · rw [htaken.owner, if_pos he]
    · refine (h.inHand entry hentry).congr fun e he => ?_
      rw [htaken.owner, if_neg (hapart entry hentry e he)]
  · refine List.pairwise_cons.mpr ⟨fun entry hentry e he hbufs => ?_, h.apart⟩
    exact hapart entry hentry e hbufs he

/-- **An entry is put.** -/
theorem FifoHands.put {ps : ℕ} (h : FifoHands o cfg s ctxs entries) (hentry : entry ∈ entries)
    (hput : BuffersPut s t ps entry.bufs) : FifoHands o cfg t ctxs (entries.erase entry) := by
  have hin := h.inHand entry hentry
  have hperm : (entry :: entries.erase entry).Perm entries := (List.perm_cons_erase hentry).symm
  have hapart := (hperm.pairwise_iff fun h => h.symm).mpr h.apart
  refine ⟨hput.fifoState h.state ⟨Int.natCast_nonneg _, hin.owner⟩ hin.nodup,
    fun f hf => (h.opened f hf).congr hput.attach, fun other hother => ?_,
    (List.pairwise_cons.mp hapart).2⟩
  refine (h.inHand other (List.mem_of_mem_erase hother)).congr fun e he => ?_
  rw [hput.owner, if_neg fun hbufs => (List.pairwise_cons.mp hapart).1 other hother hbufs he]

/-! ### Entries move -/

theorem SameButAge.refl (h : EventHeader) : SameButAge h h := ⟨rfl, rfl, rfl, rfl⟩

theorem Records.congr (h : Records o keeps s gots puts) (hlist : t.list = s.list)
    (hhdr : ∀ l, ∀ e ∈ s.list l, SameButAge (s.hdr e) (t.hdr e)) : Records o keeps t gots puts := by
  obtain ⟨x, hx, hamong⟩ := h
  exact ⟨x, hx.congr hlist, hx.map_buffers hhdr ▸ hamong⟩

/-- Lists change that no pending entry is in. -/
theorem Records.update {cs : List (List ℕ)} {xs : List ℕ} (hx : s.Whole o.entryCount x)
    (hamong : Among keeps (gots ++ (pending x).map s.buffers) puts)
    (hlist : t.list = Function.update s.list l xs) (hcs : Chunked o.entryCount cs xs)
    (hl : l ≠ .input 1 ∧ l ≠ .output 0)
    (hhdr : ∀ l, ∀ e ∈ s.list l, SameButAge (s.hdr e) (t.hdr e) ∨ l = .input 0) :
    Records o keeps t gots puts := by
  have hpending : pending (Function.update x l cs) = pending x := by
    unfold pending
    rw [Function.update_of_ne hl.1.symm, Function.update_of_ne hl.2.symm]
  refine ⟨_, hx.update hlist hcs, ?_⟩
  rw [hpending]
  have hbuffers : (pending x).map t.buffers = (pending x).map s.buffers := by
    refine List.map_congr_left fun c hc => buffers_congr fun e he => ?_
    rcases List.mem_append.mp hc with hc | hc
    · exact (hhdr _ e ((hx _).mem hc he)).resolve_right (by decide)
    · exact (hhdr _ e ((hx _).mem hc he)).resolve_right (by decide)
  rw [hbuffers]
  exact hamong

/-- A new entry comes from GRAND_CENTRAL. -/
theorem Records.newEntry {att : ℤ} (h : Records o keeps s gots puts) (hs : AllInPlace cfg s)
    (htaken : EntryTaken s t (.input 0) att o.entryCount c) : Records o keeps t gots puts := by
  obtain ⟨x, hx, hamong⟩ := h
  have hfull : s.list (.input 0) ≠ [] := fun hnil =>
    htaken.nonempty (by rw [htaken.first, hnil, List.take_nil])
  obtain ⟨-, rest, -, -, hrest⟩ := (hx (.input 0)).exists_first hfull
  refine Records.update hx hamong htaken.list hrest ⟨by decide, by decide⟩ fun l e he => ?_
  by_cases hc : e ∈ c
  · exact .inr (hs.separate.once l _ e he (List.mem_of_mem_take (htaken.first ▸ hc)))
  · exact .inl (htaken.hdr e hc ▸ SameButAge.refl _)

/-- An entry is got from "Users". -/
theorem Records.getEntry {att : ℤ} (h : Records o keeps s gots puts)
    (htaken : EntryTaken s t (.input 1) att o.entryCount c) (hhdr : t.hdr = s.hdr) :
    Records o keeps t (gots ++ [t.buffers c]) puts := by
  obtain ⟨x, hx, hamong⟩ := h
  have hfull : s.list (.input 1) ≠ [] := fun hnil =>
    htaken.nonempty (by rw [htaken.first, hnil, List.take_nil])
  obtain ⟨d, rest, hcons, hd, hrest⟩ := (hx (.input 1)).exists_first hfull
  obtain rfl : c = d := htaken.first.trans hd
  have hbuffers : t.buffers = s.buffers := by
    funext bufs
    exact buffers_congr fun e _ => hhdr ▸ SameButAge.refl _
  refine ⟨_, hx.update htaken.list hrest, ?_⟩
  have hpending : pending x = c :: pending (Function.update x (.input 1) rest) := by
    unfold pending
    rw [Function.update_self, Function.update_of_ne (by decide), hcons, List.cons_append]
  rw [hpending] at hamong
  rw [hbuffers, List.append_assoc]
  exact hamong

/-- A producer puts an entry. -/
theorem Records.putNew (h : Records o keeps s gots puts) (hput : BuffersPut s t 0 c)
    (hlen : c.length = o.entryCount) : Records o keeps t gots (puts ++ [t.buffers c]) := by
  obtain ⟨x, hx, hamong⟩ := h
  refine ⟨_, hx.update hput.list ((hx _).append (.single hlen)), ?_⟩
  have hpending : pending (Function.update x (.output 0) (x (.output 0) ++ [c])) =
      pending x ++ [c] := by
    unfold pending
    rw [Function.update_self, Function.update_of_ne (by decide), List.append_assoc]
  rw [hpending, List.map_append, hx.map_buffers fun l e _ => hput.hdr e, ← List.append_assoc]
  exact hamong.append _

/-- A consumer puts an entry. -/
theorem Records.putUsed (h : Records o keeps s gots puts) (hput : BuffersPut s t 1 c)
    (hlen : c.length = o.entryCount) : Records o keeps t gots puts := by
  obtain ⟨x, hx, hamong⟩ := h
  exact Records.update hx hamong hput.list ((hx _).append (.single hlen)) ⟨by decide, by decide⟩
    fun l e _ => .inl (hput.hdr e)

/-- The lists after a pass. -/
theorem afterPass_list {me : ℕ} {u : Pass} {f : ListName → List ℕ}
    (hinput : ∀ ps, f (.input ps) = u.listIn ps) (hme : f (.output me) = [])
    (houtput : ∀ ps, ps ≠ me → f (.output ps) = s.list (.output ps)) :
    (s.afterPass os me u).list = f := by
  funext l
  cases l with
  | input ps => exact (hinput ps).symm
  | output ps =>
      show (if ps = me then [] else s.list (.output ps)) = _
      split
      case isTrue heq => rw [heq, hme]
      case isFalse hne => exact (houtput ps hne).symm

theorem update_input {α : Type} (f : ListName → α) (ps qs : ℕ) (x : α) :
    Function.update f (.input ps) x (.input qs) =
      Function.update (fun ps => f (.input ps)) ps x qs := by
  rw [Function.update_apply, Function.update_apply]
  simp

theorem update_output_input {α : Type} (f : ListName → α) (ps qs : ℕ) (x : α) :
    Function.update f (.output ps) x (.input qs) = f (.input qs) :=
  Function.update_of_ne (fun h => by cases h) ..

theorem update_input_output {α : Type} (f : ListName → α) (ps qs : ℕ) (x : α) :
    Function.update f (.input ps) x (.output qs) = f (.output qs) :=
  Function.update_of_ne (fun h => by cases h) ..

theorem update_output_ne {α : Type} (f : ListName → α) {ps qs : ℕ} (x : α) (h : qs ≠ ps) :
    Function.update f (.output ps) x (.output qs) = f (.output qs) :=
  Function.update_of_ne (fun heq => h (ListName.output.inj heq)) ..

/-- The conductor of "Users" gives its entries to GRAND_CENTRAL. -/
theorem Records.conductUsers {u : Pass} (h : Records o keeps s gots puts)
    (hlist : u.listIn = Function.update (fun ps => s.list (.input ps)) 0
      (s.list (.input 0) ++ s.list (.output 1))) :
    Records o keeps (s.afterPass os 1 u) gots puts := by
  obtain ⟨x, hx, hamong⟩ := h
  have hhdr : (s.afterPass os 1 u).hdr = s.hdr := dropAll_hdr s true os _
  set xs := s.list (.input 0) ++ s.list (.output 1)
  have hlists : (s.afterPass os 1 u).list =
      Function.update (Function.update s.list (.input 0) xs) (.output 1) [] :=
    afterPass_list (fun ps => by rw [update_output_input, update_input, hlist])
      (Function.update_self ..) fun ps hps => by
        rw [update_output_ne _ _ hps, update_input_output]
  have hmoved : (s.setList (.input 0) xs).Whole o.entryCount
      (Function.update x (.input 0) (x (.input 0) ++ x (.output 1))) :=
    hx.update rfl ((hx _).append (hx _))
  refine ⟨_, hmoved.update hlists (.nil _), ?_⟩
  have hpending : pending (Function.update (Function.update x (.input 0)
      (x (.input 0) ++ x (.output 1))) (.output 1) []) = pending x := by
    unfold pending
    rw [update_output_input, update_output_ne _ _ (by decide), update_input_output, update_input,
      Function.update_of_ne (by decide)]
  have hbuffers : (pending x).map (s.afterPass os 1 u).buffers = (pending x).map s.buffers :=
    hx.map_buffers fun l e _ => hhdr ▸ SameButAge.refl _
  rw [hpending, hbuffers]
  exact hamong

/-- The conductor of GRAND_CENTRAL gives "Users" the first entries of its batch. -/
theorem Records.conductGrandCentral {u : Pass} {k : ℕ} (h : Records o keeps s gots puts)
    (hcount : 0 < o.entryCount) (hk : o.entryCount ∣ k)
    (hlist : u.listIn = Function.update (Function.update (fun ps => s.list (.input ps)) 1
      (s.list (.input 1) ++ (s.list (.output 0)).take k)) 0
      (s.list (.input 0) ++ (s.list (.output 0)).drop k))
    (hall : keeps → (s.list (.output 0)).length ≤ k) :
    Records o keeps (s.afterPass os 0 u) gots puts := by
  obtain ⟨x, hx, hamong⟩ := h
  obtain ⟨j, htake, hdrop⟩ := (hx (.output 0)).take_of_dvd hk
  have hhdr : (s.afterPass os 0 u).hdr = s.hdr := dropAll_hdr s true os _
  set xs := s.list (.input 1) ++ (s.list (.output 0)).take k
  set ys := s.list (.input 0) ++ (s.list (.output 0)).drop k
  have hlists : (s.afterPass os 0 u).list =
      Function.update (Function.update (Function.update s.list (.input 1) xs) (.input 0) ys)
        (.output 0) [] := by
    refine afterPass_list (fun ps => ?_) (Function.update_self ..) fun ps hps => ?_
    · rw [update_output_input, update_input, hlist]
      congr 1
      funext qs
      exact update_input s.list 1 qs xs
    · rw [update_output_ne _ _ hps, update_input_output, update_input_output]
  set y := Function.update (Function.update (Function.update x (.input 1)
    (x (.input 1) ++ (x (.output 0)).take j)) (.input 0) (x (.input 0) ++ (x (.output 0)).drop j))
    (.output 0) []
  have hgiven : (s.setList (.input 1) xs).Whole o.entryCount (Function.update x (.input 1)
      (x (.input 1) ++ (x (.output 0)).take j)) := hx.update rfl ((hx _).append htake)
  have hreturned : ((s.setList (.input 1) xs).setList (.input 0) ys).Whole o.entryCount
      (Function.update (Function.update x (.input 1) (x (.input 1) ++ (x (.output 0)).take j))
        (.input 0) (x (.input 0) ++ (x (.output 0)).drop j)) :=
    hgiven.update rfl ((hx _).append hdrop)
  have hpending : pending x = pending y ++ (x (.output 0)).drop j := by
    have hempty : y (.output 0) = [] := Function.update_self ..
    have hwaiting : y (.input 1) = x (.input 1) ++ (x (.output 0)).take j := by
      dsimp only [y]
      rw [update_output_input, update_input, Function.update_of_ne (by decide)]
      exact Function.update_self ..
    unfold pending
    rw [hempty, hwaiting, List.append_nil, List.append_assoc, List.take_append_drop]
  have hbuffers : (pending y).map (s.afterPass os 0 u).buffers = (pending y).map s.buffers :=
    List.map_congr_left fun c _ => buffers_congr fun e _ => hhdr ▸ SameButAge.refl _
  refine ⟨y, hreturned.update hlists (.nil _), Among.trans ⟨?_, fun hkeeps => ?_⟩ hamong⟩
  · rw [hbuffers, hpending, List.map_append, ← List.append_assoc]
    exact List.sublist_append_left ..
  · rw [List.drop_of_length_le (hall hkeeps)] at hdrop
    rw [hbuffers, hpending, hdrop.eq_nil hcount, List.append_nil]

/-! ### Steps -/

theorem FifoOk.openFifo (h : FifoOk o cfg keeps r) (ho : o.Accepted) (hcfg : o.Configures cfg)
    (isProducer : Bool) (bufIds : List ℤ) {r' : FifoRun}
    (hnext : r.next cfg (.openFifo isProducer bufIds) = some r') : FifoOk o cfg keeps r' := by
  obtain ⟨honly, hnew⟩ := etFifoOpen_cases h.hands.state ho hcfg isProducer bufIds
  have hrecords : Records o keeps (etFifoOpen cfg r.sys isProducer bufIds).2 r.gots r.puts :=
    h.records.congr honly.list fun l e _ => honly.hdr ▸ SameButAge.refl _
  have hcue := honly.list ▸ h.cue
  have hstate := honly.fifoState h.hands.state
  have hinHand : ∀ ctxs, r.ctxs ⊆ ctxs → ∀ entry ∈ r.entries,
      entry.InHand o (etFifoOpen cfg r.sys isProducer bufIds).2 ctxs := fun ctxs hsub entry he =>
    have hentry := h.hands.inHand entry he
    ⟨hsub hentry.ctx, hentry.length, hentry.nodup, honly.owner ▸ hentry.owner⟩
  unfold FifoRun.next at hnext
  dsimp only at hnext
  split at hnext
  case h_1 fid hok =>
    obtain rfl := Option.some.inj hnext
    refine ⟨⟨hstate, fun f hf => ?_, hinHand _ (List.subset_cons_self ..), h.hands.apart⟩, hcue,
      hrecords⟩
    rcases List.mem_cons.mp hf with rfl | hf
    · exact hnew f hok
    · exact honly.opened (h.hands.opened f hf)
  case h_2 =>
    obtain rfl := Option.some.inj hnext
    exact ⟨⟨hstate, fun f hf => honly.opened (h.hands.opened f hf), hinHand _ (List.Subset.refl _),
      h.hands.apart⟩, hcue, hrecords⟩

theorem FifoOk.newEntry (h : FifoOk o cfg keeps r) (ho : o.Accepted) (wait : FifoWait)
    {r' : FifoRun} (hnext : r.next cfg (.newEntry fid wait os) = some r') :
    FifoOk o cfg keeps r' := by
  obtain ⟨x, hx, -⟩ := h.records
  unfold FifoRun.next at hnext
  dsimp only at hnext
  rw [Option.ite_none_right_eq_some] at hnext
  obtain ⟨hfid, hnext⟩ := hnext
  rcases @etFifoNewEntry_cases r.sys cfg os.alone o x fid h.hands.state hx ho
    (h.hands.opened fid hfid) wait with ⟨hfail, hsame⟩ | ⟨c, t, heq, -, hlen, htaken, hplain⟩
  · rw [if_neg hfail, hsame] at hnext
    obtain rfl := Option.some.inj hnext
    exact h
  · rw [heq, if_pos rfl] at hnext
    obtain rfl := Option.some.inj hnext
    refine ⟨h.hands.take hfid htaken hplain hlen, fun hb => ?_,
      h.records.newEntry h.hands.state.inPlace htaken⟩
    show ((t.list (.input 1)).length : ℤ) ≤ _
    rw [htaken.list, Function.update_of_ne (by decide)]
    exact h.cue hb

theorem FifoOk.getEntry (h : FifoOk o cfg keeps r) (ho : o.Accepted) (wait : FifoWait)
    {r' : FifoRun} (hnext : r.next cfg (.getEntry fid wait os) = some r') :
    FifoOk o cfg keeps r' := by
  obtain ⟨x, hx, -⟩ := h.records
  unfold FifoRun.next at hnext
  dsimp only at hnext
  rw [Option.ite_none_right_eq_some] at hnext
  obtain ⟨hfid, hnext⟩ := hnext
  rcases @etFifoGetEntry_cases r.sys cfg os.alone o x fid h.hands.state hx ho
    (h.hands.opened fid hfid) wait with ⟨hfail, hsame⟩ | ⟨c, t, heq, -, hlen, htaken, hhdr⟩
  · rw [if_neg hfail, hsame] at hnext
    obtain rfl := Option.some.inj hnext
    exact h
  · have hplain : t.Plain := by
      unfold Plain
      rw [hhdr]
      exact h.hands.state.plain
    rw [heq, if_pos rfl] at hnext
    obtain rfl := Option.some.inj hnext
    refine ⟨h.hands.take hfid htaken hplain hlen, fun hb => ?_, h.records.getEntry htaken hhdr⟩
    show ((t.list (.input 1)).length : ℤ) ≤ _
    have hle := h.cue hb
    rw [htaken.list, Function.update_self, List.length_drop]
    omega

theorem FifoOk.putEntry (h : FifoOk o cfg keeps r) (ho : o.Accepted) {r' : FifoRun}
    (hnext : r.next cfg (.putEntry entry os) = some r') : FifoOk o cfg keeps r' := by
  unfold FifoRun.next etFifoPutEntry at hnext
  dsimp only at hnext
  rw [Option.ite_none_right_eq_some] at hnext
  obtain ⟨hentry, hnext⟩ := hnext
  have hin := h.hands.inHand entry hentry
  have hstate := h.hands.state
  have hopened := h.hands.opened _ hin.ctx
  have hne : entry.bufs ≠ [] := fun hnil => by
    have := hin.length
    rw [hnil] at this
    exact absurd this.symm (Nat.ne_of_gt ho.2.2.1)
  rcases @etEventsPut_cases r.sys cfg os.alone entry.bufs entry.fid.attId hstate.inPlace
    hstate.plain (hstate.lasthigh _) hne hin.nodup with ⟨hfail, hsame⟩ | ⟨hok, -, hput⟩
  · rw [if_neg hfail, hsame] at hnext
    obtain rfl := Option.some.inj hnext
    exact h
  · rw [if_pos hok] at hnext
    obtain rfl := Option.some.inj hnext
    refine ⟨h.hands.put hentry hput, fun hb => ?_, ?_⟩
    · show ((EventSystem.list _ (.input 1)).length : ℤ) ≤ _
      rw [hput.list, Function.update_of_ne (by simp)]
      exact h.cue hb
    · rw [hopened.station] at hput
      cases hproducer : entry.fid.producer with
      | true =>
          rw [hproducer] at hput
          exact h.records.putNew hput hin.length
      | false =>
          rw [hproducer] at hput
          exact h.records.putUsed hput hin.length

theorem FifoOk.fill (h : FifoOk o cfg keeps r) {e length : ℕ} {control : List ℤ} {r' : FifoRun}
    (hnext : r.next cfg (.fill e length control) = some r') : FifoOk o cfg keeps r' := by
  unfold FifoRun.next at hnext
  dsimp only at hnext
  rw [Option.ite_none_right_eq_some] at hnext
  obtain ⟨⟨entry, hentry, he⟩, hnext⟩ := hnext
  obtain rfl := Option.some.inj hnext
  have hstate := h.hands.state
  set k := { r.sys.hdr e with length := length, control := control }
  have hsame := setHdr_same r.sys e k
  have hother : ∀ l, ∀ e' ∈ r.sys.list l, (r.sys.setHdr e k).hdr e' = r.sys.hdr e' := by
    intro l e' hl
    refine Function.update_of_ne ?_ ..
    rintro rfl
    exact (h.hands.inHand entry hentry).notMem hstate.inPlace he l hl
  refine ⟨h.hands.congr ?_ hsame.owner hsame.attach, h.cue,
    h.records.congr hsame.list fun l e' hl => hother l e' hl ▸ SameButAge.refl _⟩
  exact ⟨hstate.inPlace.same hsame, hstate.plain.setHdr (hstate.plain e).1 (hstate.plain e).2,
    hstate.lasthigh, hstate.chain, hstate.users, hstate.exists_users⟩

theorem FifoOk.conduct (h : FifoOk o cfg keeps r) (ho : o.Accepted) (me : Fin 2)
    {select : ℕ → ℕ → Bool} {eventsTry : ℕ → ℕ}
    (hkeeps : keeps → FifoStep.Keeps o r (.conduct me select eventsTry os)) {r' : FifoRun}
    (hnext : r.next cfg (.conduct me select eventsTry os) = some r') : FifoOk o cfg keeps r' := by
  obtain ⟨u, hu, rfl⟩ := Option.map_eq_some_iff.mp hnext
  have hstate := h.hands.state
  have hroom : ∀ me ps, (r.sys.list (.input ps)).length + (r.sys.list (.output me)).length ≤
      cfg.nevents := fun me ps => hstate.inPlace.lists_fit fun heq => by cases heq
  obtain ⟨x, hx, -⟩ := h.records
  -- a pass changes the owner of no event, and no attachment
  have hhands : ∀ me : ℕ, me ∈ members fifoChain → ∀ v, r.sys.pass cfg select fifoChain me eventsTry
      = some v → v.stations = r.sys.stations →
      FifoHands o cfg (r.sys.afterPass os me v) r.ctxs r.entries := by
    intro me hme v hv hstations
    have hsame := dropAll_same r.sys true os (r.sys.returned v)
    exact h.hands.congr (hstate.afterPass ho hme hv hstations) hsame.owner hsame.attach
  match me with
  | 0 =>
      obtain ⟨k, v, hk, hv, hstations, hlist, hall, hcue⟩ := @pass_grandCentral r.sys cfg select
        eventsTry o hstate.plain ho hstate.users (hroom 0) (hx _).dvd (hx _).dvd
      obtain rfl := Option.some.inj (hv.symm.trans hu)
      refine ⟨hhands 0 (by decide) v hv hstations, fun hb => ?_,
        h.records.conductGrandCentral ho.2.2.1 hk hlist fun hk => ?_⟩
      · show ((v.listIn 1).length : ℤ) ≤ _
        have hle := h.cue hb
        have hroom := hcue hb
        rw [hlist, Function.update_of_ne (by decide), Function.update_self, List.length_append,
          List.length_take]
        omega
      · exact hall (hkeeps hk).1 (hkeeps hk).2
  | 1 =>
      obtain ⟨v, hv, hstations, hlist⟩ := @pass_users r.sys cfg select eventsTry (hroom 1 0)
      obtain rfl := Option.some.inj (hv.symm.trans hu)
      refine ⟨hhands 1 (by decide) v hv hstations, fun hb => ?_, h.records.conductUsers hlist⟩
      show ((v.listIn 1).length : ℤ) ≤ _
      rw [hlist, Function.update_of_ne (by decide)]
      exact h.cue hb

/-- **Every step keeps the invariant.** -/
theorem FifoOk.next (h : FifoOk o cfg keeps r) (ho : o.Accepted) (hcfg : o.Configures cfg)
    (a : FifoStep) (hkeeps : keeps → a.Keeps o r) {r' : FifoRun}
    (hnext : r.next cfg a = some r') : FifoOk o cfg keeps r' := by
  cases a with
  | openFifo isProducer bufIds => exact h.openFifo ho hcfg isProducer bufIds hnext
  | newEntry fid wait os => exact h.newEntry ho wait hnext
  | getEntry fid wait os => exact h.getEntry ho wait hnext
  | putEntry entry os => exact h.putEntry ho hnext
  | fill e length control => exact h.fill hnext
  | conduct me select eventsTry os => exact h.conduct ho me hkeeps hnext

end Steps

/-! ## Whole runs -/

section Runs

variable {o : FifoOptions} {cfg : EventConfig} {keeps : Prop} {r : FifoRun}
  {P : FifoRun → FifoStep → Prop}

theorem FifoOk.start (ho : o.Accepted) (hcfg : o.Configures cfg)
    (hstart : (fifoMachine o cfg).start r) : FifoOk o cfg keeps r := by
  obtain ⟨⟨hfresh, hlow, hchain, husers, hexists⟩, hctxs, hentries, hputs, hgots⟩ := hstart
  have hplain : r.sys.Plain := fun e => by
    refine ⟨hlow e, ?_⟩
    have htemp := of_decide_eq_false (hfresh.temp e)
    cases h : (r.sys.hdr e).temp with
    | normal => rfl
    | temp => exact absurd h htemp
  have hdvd : o.entryCount ∣ (r.sys.list (.input 0)).length := by
    rw [hfresh.grandCentral, List.length_range, hcfg.nevents]
    exact Dvd.intro_left o.entries rfl
  obtain ⟨cs, hcs⟩ := Chunked.exists_of_dvd hdvd
  refine ⟨⟨⟨hfresh.allInPlace, hplain, hfresh.lasthigh, hchain, husers, hexists⟩, ?_, ?_, ?_⟩,
    fun hb => ?_, Function.update (fun _ => []) (.input 0) cs, fun l => ?_, ?_⟩
  · rw [hctxs]
    exact fun fid hfid => absurd hfid List.not_mem_nil
  · rw [hentries]
    exact fun entry hentry => absurd hentry List.not_mem_nil
  · rw [hentries]
    exact .nil
  · rw [hfresh.empty _ (by decide)]
    obtain ⟨-, -, hcases⟩ := o.usersConfig_cases ho
    rcases hcases with ⟨hblocking, -⟩ | ⟨-, -, j, hj⟩
    · rw [hb] at hblocking
      cases hblocking
    · rw [hj]
      positivity
  · rcases eq_or_ne l (.input 0) with rfl | hl
    · rw [Function.update_self]
      exact hcs
    · rw [Function.update_of_ne hl, hfresh.empty l hl]
      exact .nil _
  · rw [hputs, hgots]
    exact ⟨.refl _, fun _ => rfl⟩

theorem FifoOk.of_reach (ho : o.Accepted) (hcfg : o.Configures cfg)
    (h : (fifoMachine o cfg).Reach P r) (hP : ∀ r a, P r a → keeps → a.Keeps o r) :
    FifoOk o cfg keeps r :=
  h.invariant (fun _ hs => .start ho hcfg hs) fun r a _ hr ha hnext =>
    hr.next ho hcfg a (hP r a ha) hnext

/-! ### A FIFO at work -/

/-- A blocking FIFO of ten entries of two buffers. -/
def smallFifo : FifoOptions := ⟨10, 2, 100, true⟩

/-- The system behind it. -/
def smallFifoConfig : EventConfig where
  nevents := 20
  nstations := 2
  nattachments := 4
  eventSize := 100
  ntemps := 0
  groupCount := 10

/-- That system when it has just been started, with a producer and a consumer to come. -/
def startedFifo : FifoRun where
  sys := { startedEvents with
    list := fun l => if l = .input 0 then List.range 20 else []
    stations := { startedEvents.stations with
      name := fun ps => if ps = 1 then "Users" else "GRAND_CENTRAL"
      config := fun _ => .default } }
  ctxs := []
  entries := []
  puts := []
  gots := []

/-- The producer's FIFO id, for buffers with the ids `7` and `8`. -/
def producerCtx : FifoCtx := ⟨100, 20, 10, etStationCue, true, 2, 1, 0, [7, 8]⟩

/-- The consumer's. -/
def consumerCtx : FifoCtx := { producerCtx with producer := false, attId := 1, bufIds := [] }

/-- Both take an entry without waiting long. -/
def noWait : FifoWait := ⟨some (some ⟨0, 0⟩), none⟩

theorem smallFifo_started : (fifoMachine smallFifo smallFifoConfig).start startedFifo := by
  refine ⟨⟨⟨fun _ => rfl, fun _ => rfl, fun _ => rfl, rfl, fun _ hl => if_neg hl, fun _ => rfl, rfl,
    fun _ => rfl, rfl⟩, fun _ => rfl, ?_, rfl, by decide⟩, rfl, rfl, rfl, rfl⟩
  exact chainOk_startedEvents.congr (fun _ _ => rfl) (fun _ _ => rfl) (fun _ _ => rfl)
    (fun _ _ => rfl) (fun _ _ => rfl) rfl

theorem fifoMachine_next (h : (fifoMachine o cfg).Reach P r) (a : FifoStep) (ha : P r a)
    {r' : FifoRun} (hnext : r.next cfg a = some r') : (fifoMachine o cfg).Reach P r' :=
  .step a h ha hnext

/-- The producer puts two entries, and the consumer gets the first one. -/
theorem smallFifo_run :
    ∃ r, (fifoMachine smallFifo smallFifoConfig).Reach (fun r a => a.Keeps smallFifo r) r ∧
      r.ctxs = [consumerCtx, producerCtx] ∧ r.sys.list (.input 1) = [2, 3] ∧
      r.gots = [[⟨0, 0, [7, 0, 0, 0, 0, 0]⟩, ⟨1, 0, [8, 0, 0, 0, 0, 0]⟩]] := by
  have h0 : (fifoMachine smallFifo smallFifoConfig).Reach (fun r a => a.Keeps smallFifo r)
      startedFifo := .start smallFifo_started
  have h1 := fifoMachine_next h0 (.openFifo true [7, 8]) trivial rfl
  have h2 := fifoMachine_next h1 (.openFifo false []) trivial rfl
  have h3 := fifoMachine_next h2 (.newEntry producerCtx noWait .fine) trivial rfl
  have h4 := fifoMachine_next h3 (.putEntry ⟨[0, 1], producerCtx⟩ .fine) trivial rfl
  have h5 := fifoMachine_next h4 (.newEntry producerCtx noWait .fine) trivial rfl
  have h6 := fifoMachine_next h5 (.putEntry ⟨[2, 3], producerCtx⟩ .fine) trivial rfl
  have h7 := fifoMachine_next h6 (.conduct 0 (fun _ _ => true) (fun _ => 0) .fine) ⟨rfl, rfl⟩ rfl
  have h8 := fifoMachine_next h7 (.getEntry consumerCtx noWait .fine) trivial rfl
  exact ⟨_, h8, rfl, rfl, rfl⟩

/-- **Entries stay whole**, in every state of a run: each list of the system holds a number of whole
entries, of which those that wait in "Users" or are on their way there are as producers have put them;
those that wait in a non-blocking "Users" are no more than its cue has room for; and a call for an entry
gets all its buffers, or it fails and has done nothing. -/
theorem fifo_entries_whole (ho : o.Accepted) (hcfg : o.Configures cfg)
    (h : (fifoMachine o cfg).Reach (fun _ _ => True) r) :
    (∀ l, o.entryCount ∣ (r.sys.list l).length) ∧
      (∃ x : ListName → List (List ℕ), (∀ l, Chunked o.entryCount (x l) (r.sys.list l)) ∧
        ((x (.input 1) ++ x (.output 0)).map r.sys.buffers).Sublist r.puts) ∧
      ∀ fid ∈ r.ctxs,
        (o.blocking = false → (r.sys.etFifoGetFillLevel fid : ℤ) ≤ fid.userEntries) ∧
        ∀ (wait : FifoWait) (os : OsAnswers),
          (((r.sys.etFifoNewEntry cfg os fid wait).1 = .ok ∧
              (r.sys.etFifoNewEntry cfg os fid wait).2.1.length = fid.capacity) ∨
            ((r.sys.etFifoNewEntry cfg os fid wait).1 ≠ .ok ∧
              (r.sys.etFifoNewEntry cfg os fid wait).2 = ([], r.sys))) ∧
          (((r.sys.etFifoGetEntry os fid wait).1 = .ok ∧
              (r.sys.etFifoGetEntry os fid wait).2.1.length = fid.capacity) ∨
            ((r.sys.etFifoGetEntry os fid wait).1 ≠ .ok ∧
              (r.sys.etFifoGetEntry os fid wait).2 = ([], r.sys))) := by
  have hok : FifoOk o cfg False r := .of_reach ho hcfg h fun _ _ _ hno => hno.elim
  obtain ⟨x, hx, hamong⟩ := hok.records
  have hpending : ((pending x).map r.sys.buffers).Sublist r.puts :=
    (List.sublist_append_right ..).trans hamong.sublist
  refine ⟨fun l => (hx l).dvd, ⟨x, hx, hpending⟩, fun fid hfid => ?_⟩
  have hopened := hok.hands.opened fid hfid
  refine ⟨fun hb => ?_, fun wait os => ⟨?_, ?_⟩⟩
  · unfold etFifoGetFillLevel
    rw [hopened.userStatId, hopened.userEntries]
    exact hok.cue hb
  · rcases @etFifoNewEntry_cases r.sys cfg os o x fid hok.hands.state hx ho hopened wait with
      hfail | ⟨c, t, heq, -, hlen, -⟩
    · exact .inr hfail
    · rw [heq]
      exact .inl ⟨rfl, hlen.trans hopened.capacity.symm⟩
  · rcases @etFifoGetEntry_cases r.sys cfg os o x fid hok.hands.state hx ho hopened wait with
      hfail | ⟨c, t, heq, -, hlen, -⟩
    · exact .inr hfail
    · rw [heq]
      exact .inl ⟨rfl, hlen.trans hopened.capacity.symm⟩

/-- The same FIFO, but not blocking. -/
def skippingFifo : FifoOptions := { smallFifo with blocking := false }

/-- Its system when it has just been started. -/
def startedSkipping : FifoRun :=
  { startedFifo with
    sys := { startedFifo.sys with
      stations := { startedFifo.sys.stations with
        config := fun ps => if ps = 1 then skippingFifo.usersConfig else .default } } }

/-- The FIFO ids: the cue has room for 16 buffers. -/
def skippingCtx (producer : Bool) : FifoCtx :=
  { (if producer then producerCtx else consumerCtx) with userEntries := 16 }

theorem skippingFifo_started : (fifoMachine skippingFifo smallFifoConfig).start startedSkipping := by
  refine ⟨⟨⟨fun _ => rfl, fun _ => rfl, fun _ => rfl, rfl, fun _ hl => if_neg hl, fun _ => rfl, rfl,
    fun _ => rfl, rfl⟩, fun _ => rfl, ?_, rfl, by decide⟩, rfl, rfl, rfl, rfl⟩
  exact (chainOk_withConfig _).congr (fun _ _ => rfl) (fun _ _ => rfl) (fun _ _ => rfl)
    (fun _ _ => rfl) (fun _ _ => rfl) rfl

/-- Two entries wait in "Users" of the FIFO that is not blocking. -/
theorem fifo_entries_whole_example :
    ∃ r : FifoRun, r.sys.list (.input 1) = [0, 1, 2, 3] ∧
      (r.sys.etFifoGetFillLevel (skippingCtx false) : ℤ) ≤ 16 ∧
      (∃ x : ListName → List (List ℕ), (∀ l, Chunked 2 (x l) (r.sys.list l)) ∧
        ((x (.input 1) ++ x (.output 0)).map r.sys.buffers).Sublist r.puts) ∧
      (((r.sys.etFifoGetEntry .fine (skippingCtx false) noWait).1 = .ok ∧
          (r.sys.etFifoGetEntry .fine (skippingCtx false) noWait).2.1.length = 2) ∨
        ((r.sys.etFifoGetEntry .fine (skippingCtx false) noWait).1 ≠ .ok ∧
          (r.sys.etFifoGetEntry .fine (skippingCtx false) noWait).2 = ([], r.sys))) := by
  have h0 : (fifoMachine skippingFifo smallFifoConfig).Reach (fun _ _ => True)
      startedSkipping := .start skippingFifo_started
  have h1 := fifoMachine_next h0 (.openFifo true [7, 8]) trivial rfl
  have h2 := fifoMachine_next h1 (.openFifo false []) trivial rfl
  have h3 := fifoMachine_next h2 (.newEntry (skippingCtx true) noWait .fine) trivial rfl
  have h4 := fifoMachine_next h3 (.putEntry ⟨[0, 1], skippingCtx true⟩ .fine) trivial rfl
  have h5 := fifoMachine_next h4 (.newEntry (skippingCtx true) noWait .fine) trivial rfl
  have h6 := fifoMachine_next h5 (.putEntry ⟨[2, 3], skippingCtx true⟩ .fine) trivial rfl
  have h7 := fifoMachine_next h6 (.conduct 0 (fun _ _ => true) (fun _ => 0) .fine) trivial rfl
  obtain ⟨-, hentries, hcalls⟩ := fifo_entries_whole (by decide) ⟨rfl, rfl, rfl⟩ h7
  obtain ⟨hlevel, hcalls⟩ := hcalls (skippingCtx false) (by decide)
  exact ⟨_, rfl, hlevel rfl, hentries, (hcalls noWait .fine).2⟩

/-- **First in, first out**: consumers get entries that producers have put, each at most once, in the
order of the puts, with the lengths and control words that the buffers had then. -/
theorem fifo_in_order (ho : o.Accepted) (hcfg : o.Configures cfg)
    (h : (fifoMachine o cfg).Reach (fun _ _ => True) r) : r.gots.Sublist r.puts := by
  have hok : FifoOk o cfg False r := .of_reach ho hcfg h fun _ _ _ hno => hno.elim
  obtain ⟨x, -, hamong⟩ := hok.records
  exact (List.sublist_append_left _ _).trans hamong.sublist

theorem fifo_in_order_example :
    ∃ r : FifoRun, r.gots = [[⟨0, 0, [7, 0, 0, 0, 0, 0]⟩, ⟨1, 0, [8, 0, 0, 0, 0, 0]⟩]] ∧
      r.gots.Sublist r.puts := by
  obtain ⟨r, hreach, -, -, hgots⟩ := smallFifo_run
  exact ⟨r, hgots,
    fifo_in_order (by decide) ⟨rfl, rfl, rfl⟩ (hreach.weaken fun _ _ _ => trivial)⟩

/-- **A blocking FIFO loses nothing**, as long as a consumer is attached whenever the conductor of
GRAND_CENTRAL passes: what producers have put is what consumers have got, and then the entries that
wait in "Users", and those in the output list of GRAND_CENTRAL. -/
theorem fifo_blocking_keeps (ho : o.Accepted) (hcfg : o.Configures cfg)
    (h : (fifoMachine o cfg).Reach (fun r a => a.Keeps o r) r) :
    ∃ waiting sent, Chunked o.entryCount waiting (r.sys.list (.input 1)) ∧
      Chunked o.entryCount sent (r.sys.list (.output 0)) ∧
      r.puts = r.gots ++ waiting.map r.sys.buffers ++ sent.map r.sys.buffers := by
  have hok : FifoOk o cfg True r := .of_reach ho hcfg h fun _ _ ha _ => ha
  obtain ⟨x, hx, hamong⟩ := hok.records
  refine ⟨_, _, hx (.input 1), hx (.output 0), ?_⟩
  rw [← hamong.all trivial, pending, List.map_append, List.append_assoc]

theorem fifo_blocking_keeps_example :
    ∃ r : FifoRun, r.sys.list (.input 1) = [2, 3] ∧
      ∃ waiting sent, Chunked 2 waiting (r.sys.list (.input 1)) ∧
        Chunked 2 sent (r.sys.list (.output 0)) ∧
        r.puts = r.gots ++ waiting.map r.sys.buffers ++ sent.map r.sys.buffers := by
  obtain ⟨r, hreach, -, hlist, -⟩ := smallFifo_run
  exact ⟨r, hlist, fifo_blocking_keeps (by decide) ⟨rfl, rfl, rfl⟩ hreach⟩

end Runs

end EventTransfer
