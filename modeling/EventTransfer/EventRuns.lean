import EventTransfer.ConductorPass
import EventTransfer.FailedCalls
import EventTransfer.Lib.Places
import EventTransfer.Lib.StepRun

/-!
# Runs of a system with its events

A run is a sequence of complete steps: event calls, passes of conductors, attaches and detaches,
and what processes write into the headers of events.  Nobody else is at work during a call, so a
call that finds too many temporary events waits in vain.  The passes are those of `conductor`, with
any answers of the users' select functions, and any counts of events tried.

* `Conserved` — every event is in one place: once in one list, or with an attachment.
* `AllInPlace.next` — a step keeps that in which no call names an event twice, and every group that
  a pass comes to deals well.

The checks of `et_events_put` and `et_events_dump` look at the owner of each event before any owner
is changed, so they accept an array that names an event twice (`put_twice`).
-/

namespace EventTransfer

open Places StepRun

namespace EventSystem

variable (s : EventSystem)

/-! ## Attaching and detaching -/

/-- `et_station_attach`. -/
def etStationAttach (cfg : EventConfig) (ps : ℕ) : Ret × EventSystem :=
  if cfg.nstations ≤ ps then (.error, s)
  else if ¬ s.stations.InUse ps then (.error, s)
  else if 0 < (s.stations.config ps).userMode ∧
      (s.stations.config ps).userMode ≤ s.stations.nattachments ps then (.errorToomany, s)
  else if cfg.nattachments ≤ s.nattachments then (.errorToomany, s)
  else
    match (List.range cfg.nattachments).find? fun i => !(s.attach i).active with
    | none => (.error, s)
    | some i =>
        (.ok, { s with
          nattachments := s.nattachments + 1
          attach := Function.update s.attach i ⟨true, some ps⟩
          stations := { s.stations with
            nattachments := Function.update s.stations.nattachments ps
              (s.stations.nattachments ps + 1)
            status := Function.update s.stations.status ps .active } })

/-- `et_restore`: the number of events that it puts into the list. -/
def restore (cfg : EventConfig) (l : ListName) (pe : List ℕ) : ℕ × EventSystem :=
  let n := min pe.length (cfg.nevents - (s.list l).length)
  (n, (s.setList l ((Post.restore pe).put s.hdr cfg.nevents (s.list l)).1).give (pe.take n) etSys)

/-- The first station of a parallel group, found along `prevparallel`. -/
def firstParallel : ℕ → ℕ → ℕ
  | 0, ps => ps
  | n + 1, ps =>
      match s.stations.prevparallel ps with
      | some q => firstParallel n q
      | none => ps

/-- "The station before that in the main linked list will be our `prev` station." -/
def prevStation (cfg : EventConfig) (ps : ℕ) : ℕ :=
  (s.stations.prev (s.firstParallel cfg.nstations ps)).getD 0

/-- `et_flush_events`; `interrupt` ends its read before an event is taken. -/
def etFlushEvents (cfg : EventConfig) (interrupt : Option NoEvent) (att ps : ℕ) : EventSystem :=
  if ps = 0 then s
  else
    let a : ReadArgs := ⟨att, true, some .async, none, [], interrupt⟩
    let out := s.stationRead a (.nread cfg.nevents) ps
    if out.1 ≠ .ok then s
    else if (s.stations.config ps).restoreMode = .redist then
      (out.2.2.restore cfg (.output (s.prevStation cfg ps)) out.2.1).2
    else (out.2.2.stationNwrite cfg ps out.2.1).2

/-- A temporary event is returned to GRAND_CENTRAL by `et_restore_events`: its buffer is removed,
or only its file if another process had it mapped.  The operating system's answers are looked up
at the event. -/
def dropTemp (cleanup : Bool) (os : OsAnswers) (e : ℕ) : EventSystem :=
  if s.isTemp e = false then s
  else
    let t := if cleanup then s.setFile e (s.file e && !os.unlink e) else (s.tempRemove os e e).2
    { t with ntemps := t.ntemps - 1 }

/-- An event that is not returned to GRAND_CENTRAL: its buffer is unmapped, and its data are
marked. -/
def keepTemp (cleanup : Bool) (os : OsAnswers) (e : ℕ) : EventSystem :=
  let t := if (s.isTemp e && !cleanup && os.munmap e) = true then s.setMapped e false else s
  t.setHdr e { t.hdr e with datastatus := .possiblyCorrupt }

/-- The events that `et_restore_events` finds, in the order of the array: those that the
attachment has made, and those that it has got. -/
def found (cfg : EventConfig) (att : ℕ) (age : Age) : List ℕ :=
  (List.range cfg.nevents).filter fun e => s.owner e = att ∧ (s.hdr e).age = age

/-- "Order events so high priority are first in array." -/
def ordered (es : List ℕ) : List ℕ :=
  es.filter (isHigh s.hdr) ++ es.filter fun e => !isHigh s.hdr e

/-- The second half of `et_restore_events`: where the events go that the attachment has got. -/
def restoreUsed (cfg : EventConfig) (cleanup : Bool) (os : OsAnswers) (ps : ℕ) (pe : List ℕ) :
    EventSystem :=
  let mode := (s.stations.config ps).restoreMode
  if mode = .gc ∨ ps = 0 then
    ((pe.foldl (fun s e => s.dropTemp cleanup os e) s).stationNdump cfg pe).2
  else
    let t := pe.foldl (fun s e => s.keepTemp cleanup os e) s
    if mode = .out ∨ mode = .inn ∧ s.stations.nattachments ps = 0 then (t.stationNwrite cfg ps pe).2
    else if mode = .inn then
      let r := t.restore cfg (.input ps) pe
      if r.1 < pe.length then (r.2.stationNwrite cfg ps (pe.drop r.1)).2 else r.2
    else (t.restore cfg (.output (s.prevStation cfg ps)) pe).2

/-- `et_restore_events`. -/
def etRestoreEvents (cfg : EventConfig) (cleanup : Bool) (os : OsAnswers) (att ps : ℕ) :
    EventSystem :=
  let new := s.found cfg att .new
  let used := s.found cfg att .used
  let pe := s.ordered used
  let t := s.give used etSys
  let t := ((new.foldl (fun s e => s.dropTemp cleanup os e) t).stationNdump cfg new).2
  if used = [] then t else t.restoreUsed cfg cleanup os ps pe

/-- `et_station_detach`. -/
def etStationDetach (cfg : EventConfig) (cleanup : Bool) (interrupt : Option NoEvent)
    (os : OsAnswers) (att : ℕ) : Ret × EventSystem :=
  if cfg.nattachments ≤ att then (.error, s)
  else
    match (s.attach att).stat with
    | none => (.error, s)
    | some ps =>
        let t := { s with
          attach := Function.update s.attach att ⟨false, some ps⟩
          nattachments := s.nattachments - 1 }
        let t := if s.stations.nattachments ps = 1 ∧ ps ≠ 0 then
            { t with stations := { t.stations with
              status := Function.update t.stations.status ps .idle } }.etFlushEvents cfg interrupt
                att ps
          else t
        let t := t.etRestoreEvents cfg cleanup os att ps
        (.ok, { t with stations := { t.stations with
          nattachments := Function.update t.stations.nattachments ps
            (t.stations.nattachments ps - 1) } })

/-! ## Conductors -/

/-- What the conductor of the station `me` begins a pass with: all events of its output list. -/
def passStart (eventsTry : ℕ → ℕ) (me : ℕ) : Pass :=
  ⟨s.stations, fun ps => s.list (.input ps), eventsTry, s.ntemps,
    (s.list (.output me)).map (·, false), (s.list (.output me)).length, true⟩

/-- **A pass of the conductor** of the station `me`, along the chain `gs`.  Without a result the
conductor's thread has ended in the middle of it. -/
def pass (cfg : EventConfig) (select : ℕ → ℕ → Bool) (gs : List Group) (me : ℕ)
    (eventsTry : ℕ → ℕ) : Option Pass :=
  conductor s.hdr cfg.nevents select gs me s.stations (fun ps => s.list (.input ps)) eventsTry
    s.ntemps (s.list (.output me))

/-- The events that a pass has given to GRAND_CENTRAL. -/
def returned (u : Pass) : List ℕ := (u.listIn 0).drop (s.list (.input 0)).length

/-- The state after a pass.  The temporary events that are back in GRAND_CENTRAL have lost their
files. -/
def afterPass (os : OsAnswers) (me : ℕ) (u : Pass) : EventSystem :=
  { (s.returned u).foldl (fun s e => s.dropTemp true os e) s with
    stations := u.stations
    list := fun l =>
      match l with
      | .input ps => u.listIn ps
      | .output ps => if ps = me then [] else s.list (.output ps)
    lasthigh := Function.update s.lasthigh me 0 }

/-- What a process writes into the header of an event, with `et_event_setpriority` and the
like. -/
def setFields (e : ℕ) (priority : Priority) (datastatus : DataStatus) (length : ℕ)
    (control : List ℤ) : EventSystem :=
  s.setHdr e { s.hdr e with
    priority := priority, datastatus := datastatus, length := length, control := control }

end EventSystem

/-! ## Runs -/

/-- **The steps of a run.** -/
inductive EventStep
  | call (c : LocalCall) (os : OsAnswers)
  | conduct (me : ℕ) (gs : List Group) (select : ℕ → ℕ → Bool) (eventsTry : ℕ → ℕ)
      (os : OsAnswers)
  | attach (ps : ℕ)
  | detach (att : ℕ) (cleanup : Bool) (interrupt : Option NoEvent) (os : OsAnswers)
  | setFields (e : ℕ) (priority : Priority) (datastatus : DataStatus) (length : ℕ)
      (control : List ℤ)

/-- Nobody frees a temporary event while a call waits for one. -/
def OsAnswers.alone (os : OsAnswers) : OsAnswers := { os with waits := fun _ => [] }

/-- The state after a step. -/
def EventStep.next (cfg : EventConfig) (s : EventSystem) : EventStep → Option EventSystem
  | call c os => some (c.perform cfg os.alone s).2
  | conduct me gs select eventsTry os =>
      (s.pass cfg select gs me eventsTry).map fun u => s.afterPass os me u
  | attach ps => some (s.etStationAttach cfg ps).2
  | detach att cleanup interrupt os => some (s.etStationDetach cfg cleanup interrupt os att).2
  | setFields e priority datastatus length control =>
      some (s.setFields e priority datastatus length control)

/-- The chain that a conductor goes along is the one in the table of stations. -/
def EventStep.Fits (s : EventSystem) : EventStep → Prop
  | conduct me gs _ _ _ => ChainOk s.stations gs ∧ me ∈ members gs
  | _ => True

/-- **A fresh system**, as `et_system_start` makes it: all events are in GRAND_CENTRAL's list, and
nobody is attached. -/
structure EventSystem.Fresh (cfg : EventConfig) (s : EventSystem) : Prop where
  owner : ∀ e, s.owner e = etSys
  temp : ∀ e, s.isTemp e = false
  file : ∀ e, s.file e = false
  grandCentral : s.list (.input 0) = List.range cfg.nevents
  empty : ∀ l, l ≠ .input 0 → s.list l = []
  lasthigh : ∀ ps, s.lasthigh ps = 0
  ntemps : s.ntemps = 0
  attach : ∀ att, s.attach att = ⟨false, none⟩
  nattachments : s.nattachments = 0

/-- The system as a machine. -/
def eventMachine (cfg : EventConfig) : Machine EventSystem EventStep where
  start := EventSystem.Fresh cfg
  step s a t := a.Fits s ∧ a.next cfg s = some t

theorem eventMachine_next {cfg : EventConfig} {P : EventSystem → EventStep → Prop}
    {s t : EventSystem} (h : (eventMachine cfg).Reach P s) (a : EventStep) (ha : P s a)
    (hfits : a.Fits s) (hnext : a.next cfg s = some t) : (eventMachine cfg).Reach P t :=
  .step a h ha ⟨hfits, hnext⟩

/-! ## Moves -/

namespace EventSystem

variable {s t u : EventSystem} {cfg : EventConfig} {os : OsAnswers} {a : ReadArgs}
  {r : StationRead} {ps : ℕ} {pe es xs : List ℕ} {l : ListName} {att : ℤ}

/-- **Events go into a list**, and belong to the system then. -/
structure Puts (s t : EventSystem) (l : ListName) (es : List ℕ) : Prop where
  list : ∃ xs, xs.Perm (s.list l ++ es) ∧ t.list = Function.update s.list l xs
  owner : ∀ e, t.owner e = if e ∈ es then etSys else s.owner e
  attach : t.attach = s.attach

theorem Puts.of_same (h : SameLists s t) (hputs : Puts t u l es) : Puts s u l es :=
  ⟨by rw [← h.list]; exact hputs.list, by rw [← h.owner]; exact hputs.owner,
    hputs.attach.trans h.attach⟩

theorem Puts.same (hputs : Puts s t l es) (h : SameLists t u) : Puts s u l es :=
  ⟨by rw [h.list]; exact hputs.list, by rw [h.owner]; exact hputs.owner,
    h.attach.trans hputs.attach⟩

theorem Puts.mem (hputs : Puts s t l es) (l' : ListName) (e : ℕ) :
    e ∈ t.list l' ↔ e ∈ s.list l' ∨ l' = l ∧ e ∈ es := by
  obtain ⟨xs, hperm, hlist⟩ := hputs.list
  rw [hlist]
  rcases eq_or_ne l' l with rfl | hl
  · rw [Function.update_self, hperm.mem_iff, List.mem_append]
    simp
  · rw [Function.update_of_ne hl]
    simp [hl]

theorem puts_nil (s : EventSystem) (l : ListName) : Puts s s l [] :=
  ⟨⟨s.list l, by rw [List.append_nil], (Function.update_eq_self ..).symm⟩,
    fun e => (if_neg List.not_mem_nil).symm, rfl⟩

/-- A list that is written, if it has room. -/
theorem stationNwrite_puts
    (hroom : (s.list (.output ps)).length + pe.length ≤ cfg.nevents) :
    Puts s (s.stationNwrite cfg ps pe).2 (.output ps) pe := by
  unfold stationNwrite
  split
  case isTrue hnil => exact hnil ▸ puts_nil s _
  case isFalse =>
    rw [if_neg (by omega)]
    exact ⟨⟨_, putEvents_perm, rfl⟩, fun _ => rfl, rfl⟩

theorem stationNdump_puts (hroom : (s.list (.input 0)).length + pe.length ≤ cfg.nevents) :
    Puts s (s.stationNdump cfg pe).2 (.input 0) pe := by
  have hput : (Post.ndump pe).put s.hdr cfg.nevents (s.list (.input 0)) =
      (s.list (.input 0) ++ pe, true) := if_neg (by omega)
  unfold stationNdump
  rw [hput]
  dsimp only
  split
  case isTrue hnil => exact hnil ▸ puts_nil s _
  case isFalse => exact ⟨⟨_, .refl _, rfl⟩, fun _ => rfl, rfl⟩

theorem restore_puts (hroom : (s.list l).length + pe.length ≤ cfg.nevents) :
    (s.restore cfg l pe).1 = pe.length ∧ Puts s (s.restore cfg l pe).2 l pe := by
  have hmin : min pe.length (cfg.nevents - (s.list l).length) = pe.length :=
    Nat.min_eq_left (by omega)
  have hput : ((Post.restore pe).put s.hdr cfg.nevents (s.list l)).1.Perm (s.list l ++ pe) := by
    unfold Post.put
    dsimp only
    split
    case isTrue hfull =>
      have hnil : pe = [] := List.length_eq_zero_iff.mp (by omega)
      rw [hnil, List.append_nil]
    case isFalse =>
      rw [List.take_of_length_le (by omega)]
      exact mergeEvents_perm
  unfold restore
  dsimp only
  rw [hmin, List.take_length]
  exact ⟨rfl, ⟨_, hput, rfl⟩, fun _ => rfl, rfl⟩

/-- The state in which a read has taken events. -/
def afterRead (s : EventSystem) (a : ReadArgs) (r : StationRead) (ps : ℕ) : EventSystem :=
  (s.setList (.input ps) (r.handOut s.hdr (s.list (.input ps))).2).give (s.taken a r ps) a.att

theorem ReadArgs.att_nonneg {a : ReadArgs} (h : a.accepted = true) : 0 ≤ a.att := by
  unfold ReadArgs.accepted at h
  simp only [Bool.and_eq_true, decide_eq_true_eq] at h
  exact h.1.1.1

/-- **A call that makes events**: it has done nothing, or it prepares the events it has taken. -/
theorem newCall_cases (s : EventSystem) (cfg : EventConfig) (os : OsAnswers) (a : ReadArgs)
    (r : StationRead) (size : ℕ) :
    (s.newCall cfg os a r size).2 = s ∨
      (a.accepted = true ∧ (s.attach a.att.toNat).active = true ∧ s.taken a r 0 ≠ []) ∧
        s.newCall cfg os a r size =
          (s.afterRead a r 0).makeBuffers cfg os size (s.taken a r 0) := by
  unfold newCall
  cases haccepted : a.accepted with
  | false => exact .inl rfl
  | true =>
      cases hactive : (s.attach a.att.toNat).active with
      | false => exact .inl rfl
      | true =>
          simp only [reduceCtorEq, if_false]
          by_cases hnone : s.taken a r 0 = []
          · have hread := stationRead_none hnone
            left
            split
            · rw [hread]
            · rw [hread]
              unfold makeBuffers
              split <;> rfl
          · rw [stationRead_some hnone]
            exact .inr ⟨⟨trivial, trivial, hnone⟩, if_neg (not_not.mpr rfl)⟩

/-- **A call that gets events**: it has done nothing, or it attaches the events it has taken. -/
theorem getCall_cases (s : EventSystem) (os : OsAnswers) (a : ReadArgs) (r : StationRead) :
    (s.getCall os a r).2 = s ∨
      (a.accepted = true ∧ (s.attach a.att.toNat).active = true ∧ s.statOf a.att ≠ 0 ∧
        s.taken a r (s.statOf a.att) ≠ []) ∧
      s.getCall os a r =
        (s.afterRead a r (s.statOf a.att)).attachAll os 0 (s.taken a r (s.statOf a.att)) := by
  unfold getCall
  cases haccepted : a.accepted with
  | false => exact .inl rfl
  | true =>
      cases hactive : (s.attach a.att.toNat).active with
      | false => exact .inl rfl
      | true =>
          simp only [reduceCtorEq, if_false]
          by_cases hstat : s.statOf a.att = 0
          · exact .inl (by rw [if_pos hstat])
          rw [if_neg hstat]
          by_cases hnone : s.taken a r (s.statOf a.att) = []
          · have hread := stationRead_none hnone
            left
            split
            · rw [hread]
            · rw [hread]
              rfl
          · rw [stationRead_some hnone]
            exact .inr ⟨⟨trivial, trivial, hstat, hnone⟩, if_neg (not_not.mpr rfl)⟩

/-- The events that the checks of a call accept that returns events. -/
def Accepts (s : EventSystem) (att : ℤ) (es : List ℕ) : Prop := 0 ≤ att ∧ ∀ e ∈ es, s.owner e = att

/-! ## Conservation -/

/-- **Every event is in one place**: once in one list, and owned by the system; or with one of
the attachments `holds`; or it is one of the `loose` ones that a routine has in its hands. -/
structure Conserved (cfg : EventConfig) (holds loose : ℕ → Prop) (s : EventSystem) : Prop where
  separate : Separate s.list
  listed : ∀ l e, e ∈ s.list l → s.owner e = etSys ∧ e < cfg.nevents
  held : ∀ e, s.owner e ≠ etSys → e < cfg.nevents
  place : ∀ e < cfg.nevents,
    (∃ l, e ∈ s.list l) ∨ (∃ att : ℕ, holds att ∧ s.owner e = att) ∨ loose e

namespace Conserved

variable {holds holds' loose loose' : ℕ → Prop}

theorem congr (h : Conserved cfg holds loose s) (hlist : t.list = s.list)
    (howner : t.owner = s.owner) : Conserved cfg holds loose t :=
  ⟨hlist ▸ h.separate, by rw [hlist, howner]; exact h.listed, by rw [howner]; exact h.held,
    by rw [hlist, howner]; exact h.place⟩

theorem same (h : Conserved cfg holds loose s) (hsame : SameLists s t) :
    Conserved cfg holds loose t := h.congr hsame.list hsame.owner

/-- An event of an attachment is in no list. -/
theorem notMem (h : Conserved cfg holds loose s) (hatt : 0 ≤ att) {e : ℕ} (he : s.owner e = att)
    (l : ListName) : e ∉ s.list l := by
  intro hmem
  have hsys : att = -1 := he.symm.trans (h.listed l e hmem).1
  omega

/-- Events of attachments have room in every list. -/
theorem room (h : Conserved cfg holds loose s) (hes : es.Nodup)
    (hnew : ∀ e ∈ es, e < cfg.nevents ∧ ∀ l, e ∉ s.list l) (l : ListName) :
    (s.list l).length + es.length ≤ cfg.nevents := by
  refine length_add_le (h.separate.nodup l) hes (fun e he => (hnew e he).2 l) fun e he => ?_
  rcases List.mem_append.mp he with he | he
  · exact (h.listed l e he).2
  · exact (hnew e he).1

/-- What `put` and `dump` accept is in no list. -/
theorem of_accepts (h : Conserved cfg holds loose s) (haccepts : s.Accepts att es) :
    ∀ e ∈ es, e < cfg.nevents ∧ ∀ l, e ∉ s.list l := by
  obtain ⟨hatt, howner⟩ := haccepts
  intro e he
  refine ⟨h.held e fun hsys => ?_, h.notMem hatt (howner e he)⟩
  have : att = -1 := (howner e he).symm.trans hsys
  omega

theorem mono (h : Conserved cfg holds loose s)
    (hplace : ∀ e < cfg.nevents, (∃ att : ℕ, holds att ∧ s.owner e = att) ∨ loose e →
      (∃ att : ℕ, holds' att ∧ s.owner e = att) ∨ loose' e) : Conserved cfg holds' loose' s :=
  ⟨h.separate, h.listed, h.held, fun e he => (h.place e he).imp_right (hplace e he)⟩

/-- **Events are taken out of a list.** -/
theorem take (h : Conserved cfg holds loose s) (hperm : (es ++ xs).Perm (s.list l)) (a : ℤ) :
    Conserved cfg holds (fun e => loose e ∨ e ∈ es) ((s.setList l xs).give es a) := by
  have hmem : ∀ l' e, e ∈ ((s.setList l xs).give es a).list l' ↔ e ∈ s.list l' ∧ e ∉ es :=
    mem_take hperm h.separate
  have howner : ∀ e, ((s.setList l xs).give es a).owner e = if e ∈ es then a else s.owner e :=
    fun _ => rfl
  have hes : ∀ e ∈ es, e ∈ s.list l := fun e he =>
    hperm.mem_iff.mp (List.mem_append_left xs he)
  refine ⟨h.separate.take hperm, fun l' e he => ?_, fun e he => ?_, fun e he => ?_⟩
  · rw [hmem] at he
    rw [howner, if_neg he.2]
    exact h.listed l' e he.1
  · rw [howner] at he
    split at he
    case isTrue hin => exact (h.listed l e (hes e hin)).2
    case isFalse => exact h.held e he
  · by_cases hin : e ∈ es
    · exact .inr (.inr (.inr hin))
    rcases h.place e he with ⟨l', hl'⟩ | ⟨att, hatt, hown⟩ | hloose
    · exact .inl ⟨l', (hmem l' e).mpr ⟨hl', hin⟩⟩
    · exact .inr (.inl ⟨att, hatt, by rw [howner, if_neg hin, hown]⟩)
    · exact .inr (.inr (.inl hloose))

/-- **Events are put into a list.** -/
theorem puts (h : Conserved cfg holds loose s) (hputs : Puts s t l es) (hes : es.Nodup)
    (hnew : ∀ e ∈ es, e < cfg.nevents ∧ ∀ l, e ∉ s.list l) :
    Conserved cfg holds (fun e => loose e ∧ e ∉ es) t := by
  obtain ⟨xs, hperm, hlist⟩ := hputs.list
  have hmem := hputs.mem
  refine ⟨hlist ▸ h.separate.put hes (fun l' e he => (hnew e he).2 l') hperm, fun l' e he => ?_,
    fun e he => ?_, fun e he => ?_⟩
  · rw [hmem] at he
    rw [hputs.owner]
    rcases he with he | ⟨-, he⟩
    · rw [(h.listed l' e he).1, ite_self]
      exact ⟨rfl, (h.listed l' e he).2⟩
    · rw [if_pos he]
      exact ⟨rfl, (hnew e he).1⟩
  · rw [hputs.owner] at he
    split at he
    · exact absurd rfl he
    · exact h.held e he
  · by_cases hin : e ∈ es
    · exact .inl ⟨l, (hmem l e).mpr (.inr ⟨rfl, hin⟩)⟩
    rcases h.place e he with ⟨l', hl'⟩ | ⟨att, hatt, hown⟩ | hloose
    · exact .inl ⟨l', (hmem l' e).mpr (.inl hl')⟩
    · exact .inr (.inl ⟨att, hatt, by rw [hputs.owner, if_neg hin, hown]⟩)
    · exact .inr (.inr ⟨hloose, hin⟩)

end Conserved

/-- **The attachments** of a system. -/
def Attached (s : EventSystem) (att : ℕ) : Prop := (s.attach att).active = true

/-- **Every event is in one place**, when nobody is at work. -/
def AllInPlace (cfg : EventConfig) (s : EventSystem) : Prop :=
  Conserved cfg s.Attached (fun _ => False) s

/-! ## Event calls -/

theorem AllInPlace.same (h : AllInPlace cfg s) (hsame : SameLists s t) : AllInPlace cfg t := by
  have hattached : t.Attached = s.Attached := by
    unfold Attached
    rw [hsame.attach]
  unfold AllInPlace
  rw [hattached]
  exact Conserved.same h hsame

theorem taken_perm {ps : ℕ} (htaken : s.taken a r ps ≠ []) :
    (s.taken a r ps ++ (r.handOut s.hdr (s.list (.input ps))).2).Perm (s.list (.input ps)) := by
  unfold taken at htaken ⊢
  split at htaken
  · exact absurd rfl htaken
  case isFalse hgo =>
    rw [if_neg hgo]
    exact takeWhere_perm

/-- Events are taken by an attachment. -/
theorem AllInPlace.takes (h : AllInPlace cfg s) (hatt : 0 ≤ a.att)
    (hactive : (s.attach a.att.toNat).active = true) {ps : ℕ} (htaken : s.taken a r ps ≠ [])
    (hsame : SameLists (s.afterRead a r ps) t) : AllInPlace cfg t := by
  have hperm := taken_perm htaken
  refine AllInPlace.same (Conserved.mono (Conserved.take h hperm a.att) fun e he hplace => ?_) hsame
  left
  rcases hplace with hheld | hno | hin
  · exact hheld
  · exact absurd hno id
  · refine ⟨a.att.toNat, hactive, ?_⟩
    rw [Int.toNat_of_nonneg hatt]
    exact if_pos hin

/-- Events that an attachment returns. -/
theorem AllInPlace.puts (h : AllInPlace cfg s) (haccepts : s.Accepts att es) (hes : es.Nodup)
    (hputs : Puts s t l es) : AllInPlace cfg t := by
  have hattached : t.Attached = s.Attached := by
    unfold Attached
    rw [hputs.attach]
  have hnew := Conserved.of_accepts h haccepts
  unfold AllInPlace
  rw [hattached]
  exact (Conserved.puts h hputs hes hnew).mono fun _ _ hplace => hplace.imp_right And.left

/-- **A call of a list of events that is put**: nothing has moved, or all are in the output
list. -/
theorem etEventsPut_moves (h : AllInPlace cfg s) {es : List ℕ}
    (hes : s.Accepts att es → es.Nodup) :
    SameLists s (s.etEventsPut cfg os att (some es)).2 ∨
      s.Accepts att es ∧ es.Nodup ∧
        Puts s (s.etEventsPut cfg os att (some es)).2 (.output (s.statOf att)) es := by
  unfold etEventsPut
  dsimp only
  by_cases hnil : es = []
  · rw [if_pos hnil]
    exact .inl (.refl s)
  rw [if_neg hnil]
  by_cases hatt : att < 0
  · rw [if_pos hatt]
    exact .inl (.refl s)
  rw [if_neg hatt]
  by_cases hbad : ∃ e ∈ es, (s.hdr e).memsize < (s.hdr e).length ∨ s.owner e ≠ att
  · rw [if_pos hbad]
    exact .inl (.refl s)
  have haccepts : s.Accepts att es := by
    refine ⟨not_lt.mp hatt, fun e he => ?_⟩
    by_contra hno
    exact hbad ⟨e, he, .inr hno⟩
  rw [if_neg hbad]
  split
  case isTrue => exact .inl unmapAll_same
  case isFalse =>
    have hsame : SameLists s (s.unmapAll os 0 es).2 := unmapAll_same
    have hroom := Conserved.room h (hes haccepts) (Conserved.of_accepts h haccepts)
      (.output (s.statOf att))
    rw [← hsame.list] at hroom
    have hputs := (stationNwrite_puts hroom).of_same hsame
    split
    case isTrue hfail =>
      refine .inl ?_
      rw [stationNwrite_refused hfail]
      exact hsame.trans (.foldl (fun s e => setHdr_same ..) _ _)
    case isFalse => exact .inr ⟨haccepts, hes haccepts, hputs⟩

theorem etEventPut_moves (h : AllInPlace cfg s) {e : ℕ} :
    SameLists s (s.etEventPut cfg os att (some e)).2 ∨
      s.Accepts att [e] ∧
        Puts s (s.etEventPut cfg os att (some e)).2 (.output (s.statOf att)) [e] := by
  unfold etEventPut
  dsimp only
  by_cases hatt : att < 0
  · rw [if_pos hatt]
    exact .inl (.refl s)
  rw [if_neg hatt]
  split
  case isTrue => exact .inl (.refl s)
  case isFalse =>
    by_cases howner : s.owner e ≠ att
    · rw [if_pos howner]
      exact .inl (.refl s)
    have haccepts : s.Accepts att [e] :=
      ⟨not_lt.mp hatt, List.forall_mem_singleton.mpr (not_not.mp howner)⟩
    rw [if_neg howner]
    split
    case isTrue => exact .inl (.refl s)
    case isFalse =>
      set t := if s.isTemp e then s.setMapped e false else s
      have hsame : SameLists s (t.setAge e .used) :=
        (unmap_same s (s.isTemp e) e).trans (setHdr_same ..)
      have hroom := Conserved.room h (List.nodup_singleton e) (Conserved.of_accepts h haccepts)
        (.output (s.statOf att))
      rw [← hsame.list] at hroom
      have hputs := (stationNwrite_puts hroom).of_same hsame
      split
      case isTrue hfail =>
        refine .inl ?_
        rw [stationNwrite_refused hfail]
        exact hsame.trans (setHdr_same ..)
      case isFalse => exact .inr ⟨haccepts, hputs⟩

theorem etEventsDump_moves (h : AllInPlace cfg s) {es : List ℕ}
    (hes : s.Accepts att es → es.Nodup) :
    SameLists s (s.etEventsDump cfg os att (some es)).2 ∨
      s.Accepts att es ∧ es.Nodup ∧
        Puts s (s.etEventsDump cfg os att (some es)).2 (.input 0) es := by
  unfold etEventsDump
  dsimp only
  by_cases hnil : es = []
  · rw [if_pos hnil]
    exact .inl (.refl s)
  rw [if_neg hnil]
  by_cases hatt : att < 0
  · rw [if_pos hatt]
    exact .inl (.refl s)
  rw [if_neg hatt]
  by_cases hbad : ∃ e ∈ es, s.owner e ≠ att
  · rw [if_pos hbad]
    exact .inl (.refl s)
  have haccepts : s.Accepts att es := by
    refine ⟨not_lt.mp hatt, fun e he => ?_⟩
    by_contra hno
    exact hbad ⟨e, he, hno⟩
  rw [if_neg hbad]
  have hsame : SameLists s (s.removeAll os 0 es).2.2 := removeAll_same
  split
  case isTrue => exact .inl hsame
  case isFalse =>
    have hroom := Conserved.room h (hes haccepts) (Conserved.of_accepts h haccepts) (.input 0)
    rw [← hsame.list] at hroom
    have hputs := (stationNdump_puts hroom).of_same hsame
    split
    case isTrue hfail =>
      rw [stationNdump_refused hfail]
      exact .inl hsame
    case isFalse => exact .inr ⟨haccepts, hes haccepts, hputs.same ⟨rfl, rfl, rfl, rfl, rfl, rfl⟩⟩

/-- A dump that the owner check accepts is not refused. -/
theorem AllInPlace.ndump_ok (h : AllInPlace cfg s) (haccepts : s.Accepts att es) (hes : es.Nodup)
    (hne : es ≠ []) : ((s.removeAll os 0 es).2.2.stationNdump cfg es).1 = .ok := by
  have hroom := Conserved.room h hes (Conserved.of_accepts h haccepts) (.input 0)
  rw [stationNdump_ok_iff hne, removeAll_same.list]
  omega

/-- So it makes no difference whether one event is dumped alone or in an array. -/
theorem etEventDump_eq (h : AllInPlace cfg s) (os : OsAnswers) (att : ℤ) (e : ℕ) :
    s.etEventDump cfg os att (some e) = s.etEventsDump cfg os att (some [e]) := by
  have hne : [e] ≠ [] := nofun
  unfold etEventDump etEventsDump
  dsimp only
  rw [if_neg hne]
  by_cases hatt : att < 0
  · rw [if_pos hatt, if_pos hatt]
  rw [if_neg hatt, if_neg hatt]
  by_cases howner : s.owner e ≠ att
  · rw [if_pos howner, if_pos ⟨e, List.mem_cons_self, howner⟩]
  have hgood : ¬ ∃ x ∈ [e], s.owner x ≠ att := by simpa using howner
  have haccepts : s.Accepts att [e] :=
    ⟨not_lt.mp hatt, List.forall_mem_singleton.mpr (not_not.mp howner)⟩
  have hok := @AllInPlace.ndump_ok s cfg os [e] att h haccepts (List.nodup_singleton e) hne
  rw [if_neg howner, if_neg hgood, if_neg (not_not.mpr hok), if_neg (not_not.mpr hok)]

end EventSystem

open EventSystem

/-- **The call names no event twice**, if it is one that returns several events and is accepted by
the owner check. -/
def LocalCall.NamesOnce (s : EventSystem) : LocalCall → Prop
  | .putMany att pe | .dumpMany att pe => ∀ es, pe = some es → s.Accepts att es → es.Nodup
  | _ => True

/-- **An event call leaves every event in one place.** -/
theorem EventSystem.AllInPlace.call {cfg : EventConfig} {s : EventSystem} (h : AllInPlace cfg s)
    (os : OsAnswers) (c : LocalCall) (hc : c.NamesOnce s) :
    AllInPlace cfg (c.perform cfg os s).2 := by
  have hnew : ∀ a r size, AllInPlace cfg (s.newCall cfg os a r size).2 := by
    intro a r size
    rcases s.newCall_cases cfg os a r size with heq | ⟨⟨haccepted, hactive, htaken⟩, heq⟩
    · rw [heq]
      exact h
    · rw [heq]
      exact h.takes (ReadArgs.att_nonneg haccepted) hactive htaken makeBuffers_same
  have hget : ∀ a r, AllInPlace cfg (s.getCall os a r).2 := by
    intro a r
    rcases s.getCall_cases os a r with heq | ⟨⟨haccepted, hactive, -, htaken⟩, heq⟩
    · rw [heq]
      exact h
    · rw [heq]
      exact h.takes (ReadArgs.att_nonneg haccepted) hactive htaken attachAll_same
  have hdump : ∀ att es, (s.Accepts att es → es.Nodup) →
      AllInPlace cfg (s.etEventsDump cfg os att (some es)).2 := by
    intro att es hes
    rcases etEventsDump_moves h hes with hsame | ⟨haccepts, hnodup, hputs⟩
    · exact h.same hsame
    · exact h.puts haccepts hnodup hputs
  cases c with
  | new a size => exact hnew a .read size
  | newMany a size num =>
      unfold LocalCall.perform etEventsNew
      dsimp only
      split
      · exact h
      · split
        · exact h
        · exact hnew ..
  | newGroup a size num group =>
      unfold LocalCall.perform etEventsNewGroup
      dsimp only
      split
      · exact h
      · split
        · exact h
        · split
          · exact h
          · exact hnew ..
  | get a => exact hget a .read
  | getMany a num =>
      unfold LocalCall.perform etEventsGet
      dsimp only
      split
      · exact h
      · split
        · exact h
        · exact hget ..
  | put att pe =>
      cases pe with
      | none => exact h
      | some e =>
          rcases etEventPut_moves h with hsame | ⟨haccepts, hputs⟩
          · exact h.same hsame
          · exact h.puts haccepts (List.nodup_singleton e) hputs
  | putMany att pe =>
      cases pe with
      | none => exact h
      | some es =>
          rcases etEventsPut_moves h (hc es rfl) with hsame | ⟨haccepts, hnodup, hputs⟩
          · exact h.same hsame
          · exact h.puts haccepts hnodup hputs
  | dump att pe =>
      cases pe with
      | none => exact h
      | some e =>
          have heq := etEventDump_eq h os att e
          unfold LocalCall.perform
          dsimp only
          rw [heq]
          exact hdump att [e] fun _ => List.nodup_singleton e
  | dumpMany att pe =>
      cases pe with
      | none => exact h
      | some es => exact hdump att es (hc es rfl)

namespace EventSystem

variable {s t : EventSystem} {cfg : EventConfig} {os : OsAnswers} {ps me : ℕ} {pe es : List ℕ}
  {l : ListName} {att : ℕ} {given : ℕ → List ℕ} {cleanup : Bool} {interrupt : Option NoEvent}

/-! ### Conductors -/

theorem dropTemp_same (s : EventSystem) (cleanup : Bool) (os : OsAnswers) (e : ℕ) :
    SameLists s (s.dropTemp cleanup os e) := by
  unfold dropTemp
  split
  · exact .refl s
  · have hcount : ∀ t : EventSystem, SameLists t { t with ntemps := t.ntemps - 1 } :=
      fun _ => ⟨rfl, rfl, rfl, rfl, rfl, rfl⟩
    refine SameLists.trans ?_ (hcount _)
    cases cleanup with
    | false => exact tempRemove_same
    | true => exact ⟨rfl, rfl, rfl, rfl, rfl, rfl⟩

/-- **Every event of the batch is given to exactly one station**, and no other event is. -/
structure DealsOnce (batch : List ℕ) (given : ℕ → List ℕ) : Prop where
  separate : Separate given
  all : ∀ e, e ∈ batch ↔ ∃ ps, e ∈ given ps

/-- A pass that hands out its batch does so. -/
theorem HandsOut.dealsOnce {hdr : ℕ → EventHeader} {targets batch : List ℕ} {r : Stations}
    {listIn : ℕ → List ℕ} {ntemps : ℤ} {u : Pass}
    (h : HandsOut hdr targets batch r listIn ntemps u given) (hbatch : batch.Nodup) :
    DealsOnce batch given := by
  have hperm : ((targets ++ [0]).flatMap given).Perm batch := by
    rw [List.flatMap_append, List.flatMap_singleton]
    exact h.perm
  have hother : ∀ ps ∉ targets ++ [0], given ps = [] := fun ps hps =>
    h.only ps (fun hin => hps (List.mem_append_left _ hin)) fun h0 => hps (by simp [h0])
  refine ⟨separate_of_flatMap (hperm.nodup_iff.mpr hbatch) hother, fun e => ?_⟩
  rw [← hperm.mem_iff, List.mem_flatMap]
  refine ⟨fun ⟨ps, _, he⟩ => ⟨ps, he⟩, fun ⟨ps, he⟩ => ⟨ps, ?_, he⟩⟩
  by_contra hps
  rw [hother ps hps] at he
  exact List.not_mem_nil he

/-- **A pass puts each event of the output list into one input list.** -/
structure PassedOn (s t : EventSystem) (me : ℕ) (given : ℕ → List ℕ) : Prop where
  deals : DealsOnce (s.list (.output me)) given
  input : ∀ ps, (t.list (.input ps)).Perm (s.list (.input ps) ++ given ps)
  emptied : t.list (.output me) = []
  other : ∀ ps, ps ≠ me → t.list (.output ps) = s.list (.output ps)
  owner : t.owner = s.owner
  attach : t.attach = s.attach

/-- **What a pass does**, along a chain whose groups deal well. -/
theorem pass_passedOn (h : AllInPlace cfg s) {select : ℕ → ℕ → Bool} {gs : List Group}
    {eventsTry : ℕ → ℕ} (hchain : ChainOk s.stations gs) (hme : me ∈ members gs)
    (hwell : (s.passStart eventsTry me).AllDealWell s.hdr cfg.nevents select (following gs me))
    {u : Pass} (hu : s.pass cfg select gs me eventsTry = some u) (os : OsAnswers) :
    ∃ given, PassedOn s (s.afterPass os me u) me given ∧ s.returned u = given 0 := by
  have hroom : ∀ ps, (s.list (.input ps)).length + (s.list (.output me)).length ≤ cfg.nevents := by
    intro ps
    refine length_add_le (h.separate.nodup _) (h.separate.nodup _) (fun e he hmem => ?_)
      fun e he => ?_
    · exact ListName.noConfusion (h.separate.once _ _ e hmem he)
    · exact (List.mem_append.mp he).elim (fun he => (h.listed _ e he).2)
        fun he => (h.listed _ e he).2
  obtain ⟨v, given, hv, hhands, -⟩ := conductor_handsOut select cfg.nevents hchain hme
    (h.separate.nodup (.output me)) hroom hwell
  obtain rfl : v = u := Option.some.inj (hv.symm.trans hu)
  have hreturned : s.returned v = given 0 := by
    unfold returned
    rw [hhands.grandCentral, List.drop_left]
  have hsame : SameLists s ((s.returned v).foldl (fun s e => s.dropTemp true os e) s) :=
    .foldl (fun s e => dropTemp_same s true os e) s _
  refine ⟨given, ⟨HandsOut.dealsOnce hhands (h.separate.nodup _), fun ps => ?_, if_pos rfl,
    fun ps hps => if_neg hps, hsame.owner, hsame.attach⟩, hreturned⟩
  rcases eq_or_ne ps 0 with rfl | hps
  · exact .of_eq hhands.grandCentral
  · have hlist : (s.afterPass os me v).list (.input ps) =
        llistWrite (isHigh s.hdr) (s.list (.input ps)) (given ps) := hhands.lists ps hps
    rw [hlist]
    exact llistWrite_perm ..

/-- **A pass leaves every event in one place.** -/
theorem AllInPlace.conduct (h : AllInPlace cfg s) (hpass : PassedOn s t me given) :
    AllInPlace cfg t := by
  have hdeals := hpass.deals
  have hin : ∀ ps, ∀ e ∈ given ps, e ∈ s.list (.output me) := fun ps e he =>
    (hdeals.all e).mpr ⟨ps, he⟩
  -- the batch is taken out of the output list, and then put into the input lists
  have hperm : (s.list (.output me) ++ []).Perm (s.list (.output me)) := by
    rw [List.append_nil]
  have hempty : Separate (Function.update s.list (.output me) []) := h.separate.take hperm
  have hbatch : ∀ l e, e ∈ Function.update s.list (.output me) [] l ↔
      e ∈ s.list l ∧ e ∉ s.list (.output me) := mem_take hperm h.separate
  have hgiven : Separate fun l : ListName =>
      match l with
      | .input ps => given ps
      | .output _ => [] := by
    refine ⟨fun l => ?_, fun l m x hl hm => ?_⟩
    · cases l with
      | input ps => exact hdeals.separate.nodup ps
      | output ps => exact List.nodup_nil
    · cases l with
      | output ps => exact absurd hl List.not_mem_nil
      | input ps =>
          cases m with
          | output qs => exact absurd hm List.not_mem_nil
          | input qs => rw [hdeals.separate.once ps qs x hl hm]
  have hlists : ∀ l, (t.list l).Perm (Function.update s.list (.output me) [] l ++
      match l with
      | .input ps => given ps
      | .output _ => []) := by
    intro l
    cases l with
    | input ps =>
        have hne : ListName.input ps ≠ .output me := nofun
        rw [Function.update_of_ne hne]
        exact hpass.input ps
    | output ps =>
        rcases eq_or_ne ps me with rfl | hps
        · rw [hpass.emptied, Function.update_self]
          exact .refl []
        · rw [hpass.other ps hps, Function.update_of_ne fun h => hps (ListName.output.inj h),
            List.append_nil]
  have hsep : Separate t.list := hempty.add hgiven (fun l m x hx hm => by
    cases l with
    | output ps => exact List.not_mem_nil hx
    | input ps => exact ((hbatch m x).mp hm).2 (hin ps x hx)) hlists
  have hmem : ∀ l e, e ∈ t.list l → ∃ l', e ∈ s.list l' := by
    intro l e he
    rw [(hlists l).mem_iff, List.mem_append] at he
    rcases he with he | he
    · exact ⟨l, ((hbatch l e).mp he).1⟩
    · cases l with
      | output ps => exact absurd he List.not_mem_nil
      | input ps => exact ⟨_, hin ps e he⟩
  refine ⟨hsep, fun l e he => ?_, ?_, fun e he => ?_⟩
  · obtain ⟨l', hl'⟩ := hmem l e he
    rw [hpass.owner]
    exact h.listed l' e hl'
  · rw [hpass.owner]
    exact h.held
  · rcases h.place e he with ⟨l, hl⟩ | ⟨att, hatt, hown⟩ | hno
    · left
      by_cases hb : e ∈ s.list (.output me)
      · obtain ⟨ps, hps⟩ := (hdeals.all e).mp hb
        exact ⟨.input ps, (hpass.input ps).mem_iff.mpr (List.mem_append_right _ hps)⟩
      · exact ⟨l, (hlists l).mem_iff.mpr (List.mem_append_left _ ((hbatch l e).mpr ⟨hl, hb⟩))⟩
    · refine .inr (.inl ⟨att, ?_, by rw [hpass.owner, hown]⟩)
      unfold Attached at hatt ⊢
      rwa [hpass.attach]
    · exact absurd hno id

/-! ### Attaching and detaching -/

theorem AllInPlace.attach (h : AllInPlace cfg s) (ps : ℕ) :
    AllInPlace cfg (s.etStationAttach cfg ps).2 := by
  unfold etStationAttach
  split
  · exact h
  split
  · exact h
  split
  · exact h
  split
  · exact h
  split
  case h_1 => exact h
  case h_2 i hi =>
    refine Conserved.mono (Conserved.congr h rfl rfl) fun e _ hplace => ?_
    rcases hplace with ⟨att, hatt, howner⟩ | hno
    · refine .inl ⟨att, ?_, howner⟩
      unfold Attached at hatt ⊢
      dsimp only
      rw [Function.update_apply]
      split
      · rfl
      · exact hatt
    · exact absurd hno id

/-- **Only the lists have changed**, and who owns the events. -/
def OnlyMoves (s t : EventSystem) : Prop :=
  t = { s with owner := t.owner, list := t.list, lasthigh := t.lasthigh }

theorem OnlyMoves.trans {u : EventSystem} (h : OnlyMoves s t) (h' : OnlyMoves t u) :
    OnlyMoves s u := by
  unfold OnlyMoves at *
  rw [h] at h'
  exact h'

theorem stationNwrite_onlyMoves : OnlyMoves s (s.stationNwrite cfg ps pe).2 := by
  unfold stationNwrite
  split
  · rfl
  · split <;> rfl

theorem stationNdump_onlyMoves : OnlyMoves s (s.stationNdump cfg pe).2 := by
  unfold stationNdump
  dsimp only
  split
  · rfl
  · split <;> rfl

theorem restore_onlyMoves : OnlyMoves s (s.restore cfg l pe).2 := rfl

theorem stationRead_onlyMoves {a : ReadArgs} {r : StationRead} :
    OnlyMoves s (s.stationRead a r ps).2.2 := by
  unfold stationRead
  dsimp only
  split
  · rfl
  split
  · rfl
  split <;> rfl

/-- A read that takes events, or none. -/
theorem stationRead_cases (s : EventSystem) (a : ReadArgs) (r : StationRead) (ps : ℕ) :
    ∃ es xs, (es ++ xs).Perm (s.list (.input ps)) ∧ (s.stationRead a r ps).2 =
      (es, (s.setList (.input ps) xs).give es a.att) := by
  by_cases hnone : s.taken a r ps = []
  · refine ⟨[], s.list (.input ps), .refl _, ?_⟩
    rw [stationRead_none hnone]
    unfold setList give
    simp
  · exact ⟨s.taken a r ps, _, taken_perm hnone, congrArg Prod.snd (stationRead_some hnone)⟩

/-- **The input list is flushed** into an output list, and all is as it was but for that. -/
theorem Conserved.flush {holds : ℕ → Prop} (h : Conserved cfg holds (fun _ => False) s) :
    Conserved cfg holds (fun _ => False) (s.etFlushEvents cfg interrupt att ps) ∧
      (s.etFlushEvents cfg interrupt att ps).owner = s.owner ∧
      (s.etFlushEvents cfg interrupt att ps).list (.input 0) = s.list (.input 0) ∧
      OnlyMoves s (s.etFlushEvents cfg interrupt att ps) := by
  unfold etFlushEvents
  split
  case isTrue => exact ⟨h, rfl, rfl, rfl⟩
  case isFalse hps =>
    dsimp only
    split
    case isTrue => exact ⟨h, rfl, rfl, rfl⟩
    case isFalse =>
      set a : ReadArgs := ⟨att, true, some .async, none, [], interrupt⟩
      obtain ⟨es, xs, hperm, hread⟩ := s.stationRead_cases a (.nread cfg.nevents) ps
      have hmoves := @stationRead_onlyMoves s ps a (.nread cfg.nevents)
      rw [hread] at hmoves ⊢
      dsimp only at hmoves ⊢
      set u := (s.setList (.input ps) xs).give es a.att
      have hin : ∀ e ∈ es, e ∈ s.list (.input ps) := fun e he =>
        hperm.mem_iff.mp (List.mem_append_left xs he)
      have hes : es.Nodup := (hperm.nodup_iff.mpr (h.separate.nodup _)).sublist
        (List.sublist_append_left es xs)
      have htake := h.take hperm a.att
      have hnew : ∀ e ∈ es, e < cfg.nevents ∧ ∀ l, e ∉ u.list l := fun e he =>
        ⟨(h.listed _ e (hin e he)).2, fun l hl => ((mem_take hperm h.separate l e).mp hl).2 he⟩
      have hroom := fun l => htake.room hes hnew l
      -- to whatever output list the events go, they are the system's again
      have hback : ∀ qs t, Puts u t (.output qs) es → Conserved cfg holds (fun _ => False) t ∧
          t.owner = s.owner ∧ t.list (.input 0) = s.list (.input 0) := by
        intro qs t hputs
        refine ⟨(htake.puts hputs hes hnew).mono fun e _ hplace => ?_, funext fun e => ?_, ?_⟩
        · rcases hplace with hheld | ⟨hno | hmem, hnot⟩
          · exact .inl hheld
          · exact absurd hno id
          · exact absurd hmem hnot
        · rw [hputs.owner]
          split
          case isTrue he => exact (h.listed _ e (hin e he)).1.symm
          case isFalse he => exact if_neg he
        · obtain ⟨ys, -, hlist⟩ := hputs.list
          have hne : ListName.input 0 ≠ .output qs := nofun
          have hne' : ListName.input 0 ≠ .input ps := fun h0 => hps (ListName.input.inj h0).symm
          rw [hlist, Function.update_of_ne hne]
          exact Function.update_of_ne hne' ..
      split
      case isTrue =>
        obtain ⟨hall, howner, hlist⟩ := hback _ _ (restore_puts (hroom _)).2
        exact ⟨hall, howner, hlist, hmoves.trans restore_onlyMoves⟩
      case isFalse =>
        obtain ⟨hall, howner, hlist⟩ := hback _ _ (stationNwrite_puts (hroom _))
        exact ⟨hall, howner, hlist, hmoves.trans stationNwrite_onlyMoves⟩

theorem mem_found {age : Age} {e : ℕ} :
    e ∈ s.found cfg att age ↔ e < cfg.nevents ∧ s.owner e = att ∧ (s.hdr e).age = age := by
  unfold found
  rw [List.mem_filter, List.mem_range, decide_eq_true_eq]

theorem found_nodup {age : Age} : (s.found cfg att age).Nodup := List.nodup_range.filter _

theorem ordered_perm : (s.ordered es).Perm es := List.filter_append_perm ..

theorem keepTemp_same (s : EventSystem) (cleanup : Bool) (os : OsAnswers) (e : ℕ) :
    SameLists s (s.keepTemp cleanup os e) :=
  (unmap_same s (s.isTemp e && !cleanup && os.munmap e) e).trans (setHdr_same ..)

/-- **The events got** are put into one list, GRAND_CENTRAL's only where the restore mode or the
station says so. -/
theorem restoreUsed_puts (hroom : ∀ l, (s.list l).length + pe.length ≤ cfg.nevents) :
    ∃ l, Puts s (s.restoreUsed cfg cleanup os ps pe) l pe ∧
      (l = .input 0 → (s.stations.config ps).restoreMode = .gc ∨ ps = 0) := by
  have hdrop : SameLists s (pe.foldl (fun s e => s.dropTemp cleanup os e) s) :=
    .foldl (fun s e => dropTemp_same s cleanup os e) s pe
  have hkeep : SameLists s (pe.foldl (fun s e => s.keepTemp cleanup os e) s) :=
    .foldl (fun s e => keepTemp_same s cleanup os e) s pe
  unfold restoreUsed
  dsimp only
  split
  case isTrue hgc =>
    exact ⟨_, (stationNdump_puts (by rw [hdrop.list]; exact hroom _)).of_same hdrop, fun _ => hgc⟩
  case isFalse hgc =>
    have hput : ∀ l, (pe.foldl (fun s e => s.keepTemp cleanup os e) s).list l = s.list l :=
      fun l => by rw [hkeep.list]
    split
    case isTrue =>
      exact ⟨_, (stationNwrite_puts (by rw [hput]; exact hroom _)).of_same hkeep, nofun⟩
    case isFalse =>
      split
      case isTrue =>
        obtain ⟨hall, hputs⟩ := @restore_puts _ cfg pe (.input ps)
          (show _ ≤ _ by rw [hput]; exact hroom _)
        rw [if_neg (by rw [hall]; exact lt_irrefl _)]
        exact ⟨_, hputs.of_same hkeep, fun h0 => .inr (ListName.input.inj h0)⟩
      case isFalse =>
        exact ⟨_, (restore_puts (by rw [hput]; exact hroom _)).2.of_same hkeep, nofun⟩

/-- An attachment lets events go, which are in no list yet. -/
theorem Conserved.letGo {holds : ℕ → Prop} (h : Conserved cfg holds (fun _ => False) s) :
    Conserved cfg holds (· ∈ es) (s.give es etSys) := by
  have howner : ∀ e, (s.give es etSys).owner e = if e ∈ es then etSys else s.owner e :=
    fun _ => rfl
  refine ⟨h.separate, fun l e he => ?_, fun e he => ?_, fun e he => ?_⟩
  · obtain ⟨hsys, hlt⟩ := h.listed l e he
    rw [howner, hsys, ite_self]
    exact ⟨rfl, hlt⟩
  · rw [howner] at he
    split at he
    · exact absurd rfl he
    · exact h.held e he
  · by_cases hin : e ∈ es
    · exact .inr (.inr hin)
    rcases h.place e he with hl | ⟨a, ha, hown⟩ | hno
    · exact .inl hl
    · exact .inr (.inl ⟨a, ha, by rw [howner, if_neg hin, hown]⟩)
    · exact absurd hno id

/-- **An attachment's events are restored**, and it has none then. -/
theorem Conserved.restoreEvents {holds : ℕ → Prop} (h : Conserved cfg holds (fun _ => False) s) :
    Conserved cfg (fun a => holds a ∧ a ≠ att) (fun _ => False)
        (s.etRestoreEvents cfg cleanup os att ps) ∧
      (s.etRestoreEvents cfg cleanup os att ps).attach = s.attach ∧
      ∀ e ∈ (s.etRestoreEvents cfg cleanup os att ps).list (.input 0), e ∈ s.list (.input 0) ∨
        e ∈ s.found cfg att .new ∨
          ((s.stations.config ps).restoreMode = .gc ∨ ps = 0) ∧ e ∈ s.found cfg att .used := by
  set new := s.found cfg att .new with hnew
  set used := s.found cfg att .used with hused
  set t := s.give used etSys with ht
  set u := new.foldl (fun s e => s.dropTemp cleanup os e) t with hu
  set v := (u.stationNdump cfg new).2 with hv
  have hsame : SameLists t u := .foldl (fun s e => dropTemp_same s cleanup os e) t new
  have hlist : ∀ l e, (s.owner e = att) → e ∉ s.list l := fun l e he =>
    h.notMem (Int.natCast_nonneg att) he l
  have hsep : ∀ e, e ∈ new → e ∉ used := by
    intro e hn hu
    have hage := (mem_found.mp hn).2.2.symm.trans (mem_found.mp hu).2.2
    exact Age.noConfusion hage
  -- the new events
  have htc : Conserved cfg holds (· ∈ used) t := h.letGo
  have huc : Conserved cfg holds (· ∈ used) u := htc.same hsame
  have hulist : ∀ l, u.list l = s.list l := fun l => by rw [hsame.list, ht]; rfl
  have hnewFree : ∀ e ∈ new, e < cfg.nevents ∧ ∀ l, e ∉ u.list l := fun e he =>
    ⟨(mem_found.mp he).1, fun l => by rw [hulist]; exact hlist l e (mem_found.mp he).2.1⟩
  have hvputs : Puts u v (.input 0) new :=
    stationNdump_puts (huc.room found_nodup hnewFree (.input 0))
  have hvc := huc.puts hvputs found_nodup hnewFree
  have hvowner : ∀ e, v.owner e = if e ∈ new ∨ e ∈ used then etSys else s.owner e := by
    intro e
    have hgive : t.owner e = if e ∈ used then etSys else s.owner e := rfl
    rw [hvputs.owner, hsame.owner, hgive]
    by_cases hn : e ∈ new <;> simp [hn]
  have hgone : ∀ e < cfg.nevents, s.owner e = att → e ∈ new ∨ e ∈ used := by
    intro e he howner
    cases hage : (s.hdr e).age with
    | new => exact .inl (mem_found.mpr ⟨he, howner, hage⟩)
    | used => exact .inr (mem_found.mpr ⟨he, howner, hage⟩)
  have hheld : ∀ e < cfg.nevents, ∀ a : ℕ, v.owner e = a → a ≠ att := by
    rintro e he a howner rfl
    rw [hvowner] at howner
    split at howner
    case isTrue =>
      have : (-1 : ℤ) = a := howner
      omega
    case isFalse hno => exact hno (hgone e he howner)
  have hvattach : v.attach = s.attach := hvputs.attach.trans hsame.attach
  have hvstations : v.stations = s.stations := by
    rw [hv, stationNdump_onlyMoves, hsame.stations]
    rfl
  have hvlist : ∀ e ∈ v.list (.input 0), e ∈ s.list (.input 0) ∨ e ∈ new := by
    intro e he
    have := (hvputs.mem (.input 0) e).mp he
    rw [hulist] at this
    exact this.imp_right And.right
  unfold etRestoreEvents
  dsimp only
  rw [← hnew, ← hused, ← ht, ← hu, ← hv]
  split
  case isTrue hnil =>
    refine ⟨?_, hvattach, fun e he => (hvlist e he).imp_right .inl⟩
    refine hvc.mono fun e he hplace => ?_
    rcases hplace with ⟨a, ha, howner⟩ | ⟨hmem, -⟩
    · exact .inl ⟨a, ⟨ha, hheld e he a howner⟩, howner⟩
    · rw [hnil] at hmem
      exact absurd hmem List.not_mem_nil
  case isFalse =>
    -- the events got
    have hperm : (s.ordered used).Perm used := ordered_perm
    have hnodup : (s.ordered used).Nodup := hperm.nodup_iff.mpr found_nodup
    have hfree : ∀ e ∈ s.ordered used, e < cfg.nevents ∧ ∀ l, e ∉ v.list l := by
      intro e he
      have hmem := hperm.mem_iff.mp he
      refine ⟨(mem_found.mp hmem).1, fun l hl => ?_⟩
      rcases (hvputs.mem l e).mp hl with hin | ⟨-, hin⟩
      · rw [hulist] at hin
        exact hlist l e (mem_found.mp hmem).2.1 hin
      · exact hsep e hin hmem
    obtain ⟨l, hputs, hl⟩ := @restoreUsed_puts v cfg os ps (s.ordered used) cleanup
      (hvc.room hnodup hfree)
    refine ⟨?_, hputs.attach.trans hvattach, fun e he => ?_⟩
    swap
    · rcases (hputs.mem _ e).mp he with he | ⟨hgc, he⟩
      · exact (hvlist e he).imp_right .inl
      · rw [hvstations] at hl
        exact .inr (.inr ⟨hl hgc.symm, hperm.mem_iff.mp he⟩)
    refine (hvc.puts hputs hnodup hfree).mono fun e he hplace => ?_
    rcases hplace with ⟨a, ha, howner⟩ | ⟨⟨hmem, -⟩, hnot⟩
    · refine .inl ⟨a, ⟨ha, ?_⟩, howner⟩
      rw [hputs.owner] at howner
      split at howner
      case isTrue =>
        have : (-1 : ℤ) = a := howner
        omega
      case isFalse => exact hheld e he a howner
    · exact absurd (hperm.mem_iff.mpr hmem) hnot

/-! ### A detach -/

/-- The attachment is gone from the table, and its station is idle if it was the last one. -/
def released (s : EventSystem) (att ps : ℕ) : EventSystem :=
  { s with
    attach := Function.update s.attach att ⟨false, some ps⟩
    nattachments := s.nattachments - 1
    stations := { s.stations with
      status := if s.stations.nattachments ps = 1 ∧ ps ≠ 0 then
        Function.update s.stations.status ps .idle else s.stations.status } }

/-- **A detach before it restores events**: for the last attachment the input list is flushed. -/
def beforeRestore (s : EventSystem) (cfg : EventConfig) (interrupt : Option NoEvent)
    (att ps : ℕ) : EventSystem :=
  if s.stations.nattachments ps = 1 ∧ ps ≠ 0 then
    (s.released att ps).etFlushEvents cfg interrupt att ps
  else s.released att ps

/-- The station has an attachment less. -/
def countedDown (s : EventSystem) (ps : ℕ) : EventSystem :=
  { s with stations := { s.stations with
    nattachments := Function.update s.stations.nattachments ps (s.stations.nattachments ps - 1) } }

/-- **A detach** is refused, or it restores the events of the attachment. -/
theorem etStationDetach_cases (s : EventSystem) (cfg : EventConfig) (cleanup : Bool)
    (interrupt : Option NoEvent) (os : OsAnswers) (att : ℕ) :
    (s.etStationDetach cfg cleanup interrupt os att).2 = s ∨
      ∃ ps, att < cfg.nattachments ∧ (s.attach att).stat = some ps ∧
        (s.etStationDetach cfg cleanup interrupt os att).2 =
          ((s.beforeRestore cfg interrupt att ps).etRestoreEvents cfg cleanup os att
            ps).countedDown ps := by
  unfold etStationDetach
  split
  case isTrue => exact .inl rfl
  case isFalse hlt =>
    split
    case h_1 => exact .inl rfl
    case h_2 ps hps =>
      refine .inr ⟨ps, not_le.mp hlt, hps, ?_⟩
      dsimp only
      unfold beforeRestore released countedDown
      split
      case isTrue => rfl
      case isFalse => rfl

/-- The flush of a detach moves events of the station, and does nothing else. -/
theorem AllInPlace.beforeRestore (h : AllInPlace cfg s) (interrupt : Option NoEvent) (att ps : ℕ) :
    Conserved cfg s.Attached (fun _ => False) (s.beforeRestore cfg interrupt att ps) ∧
      (s.beforeRestore cfg interrupt att ps).owner = s.owner ∧
      (s.beforeRestore cfg interrupt att ps).list (.input 0) = s.list (.input 0) ∧
      OnlyMoves (s.released att ps) (s.beforeRestore cfg interrupt att ps) := by
  have hreleased : Conserved cfg s.Attached (fun _ => False) (s.released att ps) :=
    Conserved.congr h rfl rfl
  unfold EventSystem.beforeRestore
  split
  case isTrue => exact Conserved.flush hreleased
  case isFalse => exact ⟨hreleased, rfl, rfl, rfl⟩

/-- **A detach leaves every event in one place.** -/
theorem AllInPlace.detach (h : AllInPlace cfg s) :
    AllInPlace cfg (s.etStationDetach cfg cleanup interrupt os att).2 := by
  rcases s.etStationDetach_cases cfg cleanup interrupt os att with heq | ⟨ps, -, -, heq⟩
  case inl =>
    rw [heq]
    exact h
  case inr =>
    rw [heq]
    obtain ⟨hu, -, -, hmoves⟩ := h.beforeRestore interrupt att ps
    obtain ⟨hall, hattach, -⟩ := @Conserved.restoreEvents _ cfg os ps att cleanup _ hu
    rw [hmoves] at hattach
    refine Conserved.congr (hall.mono fun e _ hplace => ?_) rfl rfl
    rcases hplace with ⟨a, ⟨ha, hne⟩, howner⟩ | hno
    · refine .inl ⟨a, ?_, howner⟩
      unfold Attached at ha ⊢
      unfold countedDown
      dsimp only
      rw [hmoves, hattach]
      exact (congrArg Attachment.active (Function.update_of_ne hne ..)).trans ha
    · exact absurd hno id

end EventSystem

open EventSystem

/-! ### Whole runs -/

theorem EventSystem.Fresh.allInPlace {cfg : EventConfig} {s : EventSystem} (h : s.Fresh cfg) :
    AllInPlace cfg s := by
  have hmem : ∀ l e, e ∈ s.list l → l = .input 0 ∧ e < cfg.nevents := by
    intro l e he
    by_cases hl : l = .input 0
    · rw [hl, h.grandCentral] at he
      exact ⟨hl, List.mem_range.mp he⟩
    · rw [h.empty l hl] at he
      exact absurd he List.not_mem_nil
  refine ⟨⟨fun l => ?_, fun l m e hl hm => (hmem l e hl).1.trans (hmem m e hm).1.symm⟩,
    fun l e he => ⟨h.owner e, (hmem l e he).2⟩, fun e he => absurd (h.owner e) he,
    fun e he => .inl ⟨.input 0, ?_⟩⟩
  · by_cases hl : l = .input 0
    · rw [hl, h.grandCentral]
      exact List.nodup_range
    · rw [h.empty l hl]
      exact List.nodup_nil
  · rw [h.grandCentral]
    exact List.mem_range.mpr he

/-- **The steps that lose no event**: no call names an event twice, and all groups that a pass comes
to deal well. -/
def EventStep.KeepsEvents (cfg : EventConfig) (s : EventSystem) : EventStep → Prop
  | .call c _ => c.NamesOnce s
  | .conduct me gs select eventsTry _ =>
      (s.passStart eventsTry me).AllDealWell s.hdr cfg.nevents select (following gs me)
  | _ => True

theorem EventSystem.AllInPlace.next {cfg : EventConfig} {s t : EventSystem}
    (h : AllInPlace cfg s) (a : EventStep) (ha : a.KeepsEvents cfg s) (hfits : a.Fits s)
    (hnext : a.next cfg s = some t) : AllInPlace cfg t := by
  cases a with
  | call c os =>
      obtain rfl := Option.some.inj hnext
      exact h.call _ c ha
  | conduct me gs select eventsTry os =>
      obtain ⟨u, hu, rfl⟩ := Option.map_eq_some_iff.mp hnext
      obtain ⟨given, hpass, -⟩ := pass_passedOn h hfits.1 hfits.2 ha hu os
      exact h.conduct hpass
  | attach ps =>
      obtain rfl := Option.some.inj hnext
      exact h.attach ps
  | detach att cleanup interrupt os =>
      obtain rfl := Option.some.inj hnext
      exact h.detach
  | setFields e priority datastatus length control =>
      obtain rfl := Option.some.inj hnext
      exact h.same (setHdr_same ..)

/-- **The event is in one place**: at one place of one list, and owned by the system; or in no
list, and owned by one of the attachments. -/
def EventSystem.InOnePlace (s : EventSystem) (e : ℕ) : Prop :=
  (s.owner e = etSys ∧ ∃ l, (s.list l).count e = 1 ∧ ∀ m, m ≠ l → e ∉ s.list m) ∨
    ∃ att : ℕ, s.Attached att ∧ s.owner e = att ∧ ∀ l, e ∉ s.list l

theorem EventSystem.AllInPlace.inOnePlace {cfg : EventConfig} {s : EventSystem}
    (h : AllInPlace cfg s) {e : ℕ} (he : e < cfg.nevents) : s.InOnePlace e := by
  rcases h.place e he with ⟨l, hl⟩ | ⟨att, hatt, howner⟩ | hno
  · refine .inl ⟨(h.listed l e hl).1, l, List.count_eq_one_of_mem (h.separate.nodup l) hl,
      fun m hm hmem => hm (h.separate.once m l e hmem hl)⟩
  · exact .inr ⟨att, hatt, howner, h.notMem (Int.natCast_nonneg att) howner⟩
  · exact absurd hno id

/-- In every state reached by steps that lose no event, every event is in one place. -/
theorem allInPlace_of_reach {cfg : EventConfig} {s : EventSystem}
    (h : (eventMachine cfg).Reach (fun s a => a.KeepsEvents cfg s) s) : AllInPlace cfg s :=
  h.invariant (fun _ hs => hs.allInPlace) fun _ a _ hs ha hstep => hs.next a ha hstep.1 hstep.2

/-- A system of two events that has just been started, with one station beside GRAND_CENTRAL. -/
def startedEvents : EventSystem :=
  { freshEvents with
    stations := { Stations.blank with
      status := fun ps => if ps = 0 then .active else if ps = 1 then .idle else .unused
      next := fun ps => if ps = 0 then some 1 else none
      prev := fun ps => if ps = 1 then some 0 else none
      statTail := some 1 }
    attach := fun _ => ⟨false, none⟩
    nattachments := 0 }

theorem fresh_startedEvents : startedEvents.Fresh freshConfig :=
  ⟨fun _ => rfl, fun _ => rfl, fun _ => rfl, rfl, fun _ hl => if_neg hl, fun _ => rfl, rfl,
    fun _ => rfl, rfl⟩

/-- The two stations are in the chain, whatever their configurations. -/
theorem chainOk_withConfig (config : ℕ → StatConfig) :
    ChainOk { startedEvents.stations with config := config } [(0, []), (1, [])] := by
  refine ⟨rfl, ⟨rfl, rfl, rfl, rfl, trivial⟩, rfl, fun g hg => ?_, fun g hg => ?_,
    fun g hg => ?_, by decide⟩
  all_goals
    simp only [List.mem_cons, List.not_mem_nil, or_false] at hg
    rcases hg with rfl | rfl
  · exact ⟨rfl, rfl, trivial⟩
  · exact ⟨rfl, rfl, trivial⟩
  · exact fun i hi => absurd hi (by simp)
  · exact fun i hi => absurd hi (by simp)
  · exact fun h => absurd rfl h
  · exact fun h => absurd rfl h

theorem chainOk_startedEvents : ChainOk startedEvents.stations [(0, []), (1, [])] :=
  chainOk_withConfig startedEvents.stations.config

/-- An attachment asks for one event of `size` bytes, and does not wait. -/
def askForEvent (size : ℕ) : LocalCall := .new ⟨0, true, some .async, none, [], none⟩ size

/-- Three events, and two attachments at most. -/
def twoReaders : EventConfig := { freshConfig with nevents := 3, nattachments := 2 }

/-- The same stations, in a system of three events. -/
def startedThree : EventSystem :=
  { startedEvents with list := fun l => if l = .input 0 then [0, 1, 2] else [] }

theorem fresh_startedThree : startedThree.Fresh twoReaders :=
  ⟨fun _ => rfl, fun _ => rfl, fun _ => rfl, rfl, fun _ hl => if_neg hl, fun _ => rfl, rfl,
    fun _ => rfl, rfl⟩

/-- The chain while one is attached to GRAND_CENTRAL, and one to the station `1`. -/
theorem chainOk_attached :
    ChainOk ((startedThree.etStationAttach twoReaders 0).2.etStationAttach twoReaders 1).2.stations
      [(0, []), (1, [])] :=
  chainOk_startedEvents.congr (fun _ _ => rfl) (fun _ _ => rfl) (fun _ _ => rfl) (fun _ _ => rfl)
    (fun _ _ => rfl) rfl

/-- The attachment `0` asks for three events of 100 bytes. -/
def askForThree : LocalCall := .newMany ⟨0, true, some .async, none, [], none⟩ 100 3

theorem LocalCall.namesOnce_putMany {att : ℕ} {es : List ℕ} (h : es.Nodup) (s : EventSystem) :
    (LocalCall.putMany att (some es)).NamesOnce s := by
  intro xs hxs _
  obtain rfl := Option.some.inj hxs
  exact h

/-- **An event that is put twice**: an attachment that owns event `0` puts the array of this event
and again this event.  The call is accepted, and the event is at two places of the station's output
list. -/
theorem put_twice :
    ∃ s, (eventMachine freshConfig).Reach (fun _ _ => True) s ∧
      ((LocalCall.putMany 0 (some [0, 0])).perform freshConfig .fine s).1 = .ok ∧
        (eventMachine freshConfig).Reach (fun _ _ => True)
          ((LocalCall.putMany 0 (some [0, 0])).perform freshConfig .fine s).2 ∧
        ¬ ((LocalCall.putMany 0 (some [0, 0])).perform freshConfig .fine s).2.InOnePlace 0 := by
  have h0 : (eventMachine freshConfig).Reach (fun _ _ => True) startedEvents :=
    .start fresh_startedEvents
  have h1 := eventMachine_next h0 (.attach 1) trivial trivial rfl
  have h2 := eventMachine_next h1 (.call (askForEvent 100) .fine) trivial trivial rfl
  have h3 := eventMachine_next h2 (.call (.putMany 0 (some [0, 0])) .fine) trivial trivial rfl
  refine ⟨_, h2, by decide, h3, ?_⟩
  rintro (⟨-, l, hcount, hother⟩ | ⟨att, -, howner, -⟩)
  · have hl : l = .output 1 := by
      by_contra hne
      exact hother (.output 1) (Ne.symm hne) (by decide)
    rw [hl] at hcount
    revert hcount
    decide
  · have hsys : (-1 : ℤ) = att := howner
    omega

end EventTransfer
