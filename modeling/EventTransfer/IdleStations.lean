import EventTransfer.EventMoves
import EventTransfer.AttachmentCalls

/-!
# Idle stations are empty

"If this is station's (not gc's) last attachment, mark station inactive": the detach of the last
attachment makes the station idle, flushes its input list into an output list, and then restores the
events that the attachment has got.  Nobody reads the list of an idle station, and a conductor passes it
by, so that an event in it would stay there until somebody attaches again.

With the restore mode `ET_STATION_RESTORE_IN` the events go back into the input list, unless the station
has no attachments; but the attachment is counted down only later.  So the list of an idle station stays
empty in runs in which no last attachment restores events so, and no flush is interrupted.

* `Arrivals` — the stations that a step can bring events to.
* `Staffed` — the counts and states of the stations are those of the attachments.
* `idle_stations_empty` — there is nothing in the input list of a station that nobody is attached to.
-/

namespace EventTransfer

open Places StepRun FenceState

/-- The sizes of the tables. -/
def EventConfig.sizes (cfg : EventConfig) : TableSizes := ⟨0, cfg.nattachments, cfg.nstations⟩

namespace EventSystem

variable {s t u : EventSystem} {cfg : EventConfig} {os : OsAnswers} {a : ReadArgs} {r : StationRead}
  {here there : ℕ → Prop} {es pe : List ℕ} {att ps i x : ℕ} {cleanup : Bool} {interrupt : Option NoEvent}

/-! ## Where events arrive -/

/-- **Events come into the input lists** of GRAND_CENTRAL and of the stations of `here` only, and the
tables of stations and attachments stay as they are. -/
structure Arrivals (here : ℕ → Prop) (s t : EventSystem) : Prop where
  stations : t.stations = s.stations
  attach : t.attach = s.attach
  input : ∀ x, x ≠ 0 → ¬ here x → ∀ e ∈ t.list (.input x), e ∈ s.list (.input x)

/-- No events arrive. -/
abbrev NoArrivals : EventSystem → EventSystem → Prop := Arrivals fun _ => False

theorem Arrivals.refl (s : EventSystem) : Arrivals here s s := ⟨rfl, rfl, fun _ _ _ _ => id⟩

theorem Arrivals.trans (h : Arrivals here s t) (h' : Arrivals here t u) : Arrivals here s u :=
  ⟨h'.stations.trans h.stations, h'.attach.trans h.attach, fun x h0 hx e he =>
    h.input x h0 hx e (h'.input x h0 hx e he)⟩

theorem Arrivals.mono (h : Arrivals here s t) (hsub : ∀ x, here x → there x) : Arrivals there s t :=
  ⟨h.stations, h.attach, fun x h0 hx => h.input x h0 fun hin => hx (hsub x hin)⟩

/-- A list stays empty. -/
theorem Arrivals.empty (h : Arrivals here s t) (h0 : x ≠ 0) (hx : ¬ here x)
    (hempty : s.list (.input x) = []) : t.list (.input x) = [] := by
  refine List.eq_nil_iff_forall_not_mem.mpr fun e he => ?_
  have hin := h.input x h0 hx e he
  rw [hempty] at hin
  exact List.not_mem_nil hin

theorem NoArrivals.empty (h : NoArrivals s t) (h0 : x ≠ 0) (hempty : s.list (.input x) = []) :
    t.list (.input x) = [] := Arrivals.empty h h0 id hempty

/-- One list has changed. -/
theorem arrivals_update {l : ListName} {xs : List ℕ} (hstations : t.stations = s.stations)
    (hattach : t.attach = s.attach) (hlist : t.list = Function.update s.list l xs)
    (hl : ∀ x, x ≠ 0 → l = .input x → ¬ here x → ∀ e ∈ xs, e ∈ s.list l) : Arrivals here s t := by
  refine ⟨hstations, hattach, fun x h0 hx e he => ?_⟩
  rw [hlist] at he
  by_cases h : l = .input x
  · rw [← h, Function.update_self] at he
    exact h ▸ hl x h0 h hx e he
  · rwa [Function.update_of_ne fun heq => h heq.symm] at he

theorem SameLists.arrivals (h : SameLists s t) : Arrivals here s t :=
  ⟨h.stations, h.attach, fun x _ _ e he => by rwa [h.list] at he⟩

theorem stationNwrite_arrivals : Arrivals here s (s.stationNwrite cfg ps pe).2 := by
  rcases stationNwrite_cases s cfg ps pe with heq | heq
  · rw [heq]
    exact .refl s
  · rw [heq]
    exact arrivals_update (l := .output ps) rfl rfl rfl fun _ _ h => ListName.noConfusion h

theorem stationNdump_arrivals : Arrivals here s (s.stationNdump cfg pe).2 := by
  rcases stationNdump_cases s cfg pe with heq | heq
  · rw [heq]
    exact .refl s
  · rw [heq]
    exact arrivals_update (l := .input 0) rfl rfl rfl fun x h0 h =>
      absurd (ListName.input.inj h).symm h0

/-- Events that are restored into a list. -/
theorem restore_arrivals {l : ListName} (hl : ∀ x, l = .input x → here x) :
    Arrivals here s (s.restore cfg l pe).2 := by
  obtain ⟨n, hlist⟩ := restore_list s cfg l pe
  exact arrivals_update rfl rfl hlist fun x _ h hx => absurd (hl x h) hx

/-- A read takes events away. -/
theorem stationRead_arrivals : Arrivals here s (s.stationRead a r ps).2.2 := by
  obtain ⟨es, xs, hperm, hread⟩ := s.stationRead_cases a r ps
  rw [hread]
  exact arrivals_update (l := .input ps) rfl rfl rfl fun _ _ _ _ e he =>
    hperm.subset (List.mem_append_right es he)

/-! ### Calls -/

theorem newCall_arrivals {size : ℕ} : Arrivals here s (s.newCall cfg os a r size).2 := by
  unfold newCall
  split
  · exact .refl s
  split
  · exact .refl s
  dsimp only
  split
  · exact stationRead_arrivals
  · exact stationRead_arrivals.trans makeBuffers_same.arrivals

theorem getCall_arrivals : Arrivals here s (s.getCall os a r).2 := by
  unfold getCall
  split
  · exact .refl s
  split
  · exact .refl s
  split
  · exact .refl s
  dsimp only
  split
  · exact stationRead_arrivals
  · exact stationRead_arrivals.trans attachAll_same.arrivals

theorem etEventPut_arrivals {att : ℤ} {pe : Option ℕ} :
    Arrivals here s (s.etEventPut cfg os att pe).2 := by
  unfold etEventPut
  split
  · exact .refl s
  case h_2 e =>
  split
  · exact .refl s
  split
  · exact .refl s
  split
  · exact .refl s
  split
  · exact .refl s
  dsimp only
  have hsame := unmap_same s (s.isTemp e) e
  set t := if s.isTemp e then s.setMapped e false else s
  have hput : Arrivals here s ((t.setAge e .used).stationNwrite cfg (s.statOf att) [e]).2 :=
    (hsame.trans (setHdr_same ..)).arrivals.trans stationNwrite_arrivals
  split
  · exact hput.trans (setHdr_same ..).arrivals
  · exact hput

theorem etEventsPut_arrivals {att : ℤ} {pe : Option (List ℕ)} :
    Arrivals here s (s.etEventsPut cfg os att pe).2 := by
  unfold etEventsPut
  split
  · exact .refl s
  split
  · exact .refl s
  split
  · exact .refl s
  split
  · exact .refl s
  dsimp only
  split
  · exact unmapAll_same.arrivals
  split
  · exact (unmapAll_same.arrivals.trans stationNwrite_arrivals).trans
      (SameLists.foldl (fun s e => setHdr_same ..) _ _).arrivals
  · exact unmapAll_same.arrivals.trans stationNwrite_arrivals

theorem etEventsDump_arrivals {att : ℤ} {pe : Option (List ℕ)} :
    Arrivals here s (s.etEventsDump cfg os att pe).2 := by
  unfold etEventsDump
  split
  · exact .refl s
  case h_2 es =>
  split
  · exact .refl s
  split
  · exact .refl s
  split
  · exact .refl s
  dsimp only
  split
  · exact removeAll_same.arrivals
  split
  · exact removeAll_same.arrivals.trans stationNdump_arrivals
  · have hdump : Arrivals here s ((s.removeAll os 0 es).2.2.stationNdump cfg es).2 :=
      removeAll_same.arrivals.trans stationNdump_arrivals
    exact ⟨hdump.stations, hdump.attach, hdump.input⟩

theorem etEventDump_arrivals {att : ℤ} {pe : Option ℕ} :
    Arrivals here s (s.etEventDump cfg os att pe).2 := by
  unfold etEventDump
  split
  · exact .refl s
  split
  · exact .refl s
  split
  · exact .refl s
  dsimp only
  split
  · exact removeAll_same.arrivals
  have hdump : ∀ e : ℕ, Arrivals here s ((s.removeAll os 0 [e]).2.2.stationNdump cfg [e]).2 := fun _ =>
    removeAll_same.arrivals.trans stationNdump_arrivals
  split
  · exact ⟨(hdump _).stations, (hdump _).attach, (hdump _).input⟩
  · exact ⟨(hdump _).stations, (hdump _).attach, (hdump _).input⟩

/-- **An event call** brings no events to a station. -/
theorem perform_arrivals (c : LocalCall) : Arrivals here s (c.perform cfg os s).2 := by
  cases c with
  | new a size => exact newCall_arrivals
  | newMany a size num =>
      unfold LocalCall.perform etEventsNew
      dsimp only
      split
      · exact .refl s
      split
      · exact .refl s
      · exact newCall_arrivals
  | newGroup a size num group =>
      unfold LocalCall.perform etEventsNewGroup
      dsimp only
      split
      · exact .refl s
      split
      · exact .refl s
      split
      · exact .refl s
      · exact newCall_arrivals
  | get a => exact getCall_arrivals
  | getMany a num =>
      unfold LocalCall.perform etEventsGet
      dsimp only
      split
      · exact .refl s
      split
      · exact .refl s
      · exact getCall_arrivals
  | put att pe => exact etEventPut_arrivals
  | putMany att pe => exact etEventsPut_arrivals
  | dump att pe => exact etEventDump_arrivals
  | dumpMany att pe => exact etEventsDump_arrivals

/-! ### Detaching -/

/-- The flush of an input list. -/
theorem etFlushEvents_arrivals : Arrivals here s (s.etFlushEvents cfg interrupt att ps) := by
  unfold etFlushEvents
  split
  · exact .refl s
  dsimp only
  split
  · exact .refl s
  split
  · exact stationRead_arrivals.trans (restore_arrivals fun _ h => ListName.noConfusion h)
  · exact stationRead_arrivals.trans stationNwrite_arrivals

/-- A read of all events empties the list. -/
theorem stationRead_empties (hnone : a.interrupt = none) (hne : s.list (.input ps) ≠ [])
    (hfit : (s.list (.input ps)).length ≤ cfg.nevents) :
    (s.stationRead a (.nread cfg.nevents) ps).1 = .ok ∧
      (s.stationRead a (.nread cfg.nevents) ps).2.2.list (.input ps) = [] := by
  have hout : (StationRead.nread cfg.nevents).handOut s.hdr (s.list (.input ps)) =
      (s.list (.input ps), []) := by
    have hmin : min cfg.nevents (s.list (.input ps)).length = (s.list (.input ps)).length :=
      min_eq_right hfit
    have heq := takeWhere_true (s.list (.input ps)).length (s.list (.input ps))
    rw [List.take_length, List.drop_length] at heq
    show takeWhere _ (min cfg.nevents _) _ = _
    rw [hmin]
    exact heq
  have htaken : s.taken a (.nread cfg.nevents) ps = s.list (.input ps) := by
    unfold taken
    rw [hnone, hout]
    rfl
  rw [stationRead_some (by rwa [htaken]), hout]
  exact ⟨rfl, Function.update_self ..⟩

/-- **A flush that is not interrupted** empties the list. -/
theorem etFlushEvents_empties (hps : ps ≠ 0) (hfit : (s.list (.input ps)).length ≤ cfg.nevents) :
    (s.etFlushEvents cfg none att ps).list (.input ps) = [] := by
  by_cases hnil : s.list (.input ps) = []
  · have hnone : NoArrivals s (s.etFlushEvents cfg none att ps) := etFlushEvents_arrivals
    exact hnone.empty hps hnil
  obtain ⟨hok, hempty⟩ := @stationRead_empties s cfg ⟨att, true, some .async, none, [], none⟩ ps rfl
    hnil hfit
  unfold etFlushEvents
  rw [if_neg hps]
  dsimp only
  rw [if_neg (not_not.mpr hok)]
  split
  · exact NoArrivals.empty (restore_arrivals nofun) hps hempty
  · exact NoArrivals.empty stationNwrite_arrivals hps hempty

theorem dropAll_arrivals (s : EventSystem) (es : List ℕ) :
    Arrivals here s (es.foldl (fun s e => s.dropTemp cleanup os e) s) :=
  (SameLists.foldl (fun s e => dropTemp_same s cleanup os e) s es).arrivals

theorem restoreUsed_arrivals :
    Arrivals (fun x => x = ps ∧ (s.stations.config ps).restoreMode = .inn) s
      (s.restoreUsed cfg cleanup os ps pe) := by
  have hkeep : SameLists s (pe.foldl (fun s e => s.keepTemp cleanup os e) s) :=
    .foldl (fun s e => keepTemp_same s cleanup os e) s pe
  unfold restoreUsed
  dsimp only
  split
  · exact (dropAll_arrivals s pe).trans stationNdump_arrivals
  split
  · exact hkeep.arrivals.trans stationNwrite_arrivals
  split
  case isTrue hmode =>
    have hback : Arrivals (fun x => x = ps ∧ (s.stations.config ps).restoreMode = .inn) s
        ((pe.foldl (fun s e => s.keepTemp cleanup os e) s).restore cfg (.input ps) pe).2 :=
      hkeep.arrivals.trans (restore_arrivals fun x hx => ⟨(ListName.input.inj hx).symm, hmode⟩)
    split
    · exact hback.trans stationNwrite_arrivals
    · exact hback
  · exact hkeep.arrivals.trans (restore_arrivals fun _ h => ListName.noConfusion h)

/-- **The events that are restored** come into an input list only with the restore mode
`ET_STATION_RESTORE_IN`. -/
theorem etRestoreEvents_arrivals : Arrivals (fun x => x = ps ∧
    (s.stations.config ps).restoreMode = .inn ∧ s.found cfg att .used ≠ []) s
      (s.etRestoreEvents cfg cleanup os att ps) := by
  unfold etRestoreEvents
  dsimp only
  have hdump : ∀ here : ℕ → Prop, Arrivals here s (((s.found cfg att .new).foldl
      (fun s e => s.dropTemp cleanup os e) (s.give (s.found cfg att .used) etSys)).stationNdump cfg
        (s.found cfg att .new)).2 := by
    intro here
    have hgive : Arrivals here s (s.give (s.found cfg att .used) etSys) :=
      ⟨rfl, rfl, fun _ _ _ _ => id⟩
    exact (hgive.trans (dropAll_arrivals _ _)).trans stationNdump_arrivals
  split
  case isTrue => exact hdump _
  case isFalse hused =>
    refine (hdump _).trans (restoreUsed_arrivals.mono fun x hx => ⟨hx.1, ?_, hused⟩)
    have hstations := (hdump fun _ => False).stations
    rw [← hstations]
    exact hx.2

/-! ## Attachments and stations -/

/-- The attachment is in use, and it is one to the station. -/
def attachedTo (s : EventSystem) (ps att : ℕ) : Bool :=
  (s.attach att).active && decide ((s.attach att).stat = some ps)

/-- **The counts and the states of the stations** are those of the attachments, and there is nothing in
the input list of a station that is not active. -/
structure Staffed (cfg : EventConfig) (s : EventSystem) : Prop where
  lt : ∀ att, s.Attached att → att < cfg.nattachments
  count : ∀ ps, s.stations.nattachments ps = countAtts cfg.sizes (s.attachedTo ps)
  active : ∀ ps, ps ≠ 0 → (s.stations.status ps = .active ↔ 0 < s.stations.nattachments ps)
  empty : ∀ ps, ps ≠ 0 → s.stations.status ps ≠ .active → s.list (.input ps) = []

/-- **A step that brings events to active stations only**, and changes no other table. -/
theorem Staffed.of_arrivals (h : Staffed cfg s) (hattach : t.attach = s.attach)
    (hnatts : t.stations.nattachments = s.stations.nattachments)
    (hstatus : t.stations.status = s.stations.status)
    (hinput : ∀ ps, ps ≠ 0 → s.stations.status ps ≠ .active → s.list (.input ps) = [] →
      t.list (.input ps) = []) : Staffed cfg t := by
  have hto : t.attachedTo = s.attachedTo := by
    funext ps att
    unfold attachedTo
    rw [hattach]
  refine ⟨fun att hatt => h.lt att ?_, ?_, ?_, fun ps h0 hps => ?_⟩
  · unfold Attached at hatt ⊢
    rwa [hattach] at hatt
  · rw [hnatts, hto]
    exact h.count
  · rw [hnatts, hstatus]
    exact h.active
  · rw [hstatus] at hps
    exact hinput ps h0 hps (h.empty ps h0 hps)

/-- An entry of the table of attachments changes. -/
theorem attachedTo_update (s : EventSystem) (att ps : ℕ) (e : Attachment) (x : ℕ)
    (hattach : t.attach = Function.update s.attach att e) (hstat : e.stat = some ps)
    (hother : x ≠ ps → s.attachedTo x att = false) :
    t.attachedTo x = Function.update (s.attachedTo x) att (if x = ps then e.active else false) := by
  funext b
  unfold attachedTo
  rw [hattach]
  rcases eq_or_ne b att with rfl | hb
  · rw [Function.update_self, Function.update_self, hstat]
    by_cases hx : x = ps
    · rw [if_pos hx, hx, decide_eq_true rfl, Bool.and_true]
    · rw [if_neg hx, decide_eq_false fun heq => hx (Option.some.inj heq).symm, Bool.and_false]
  · rw [Function.update_of_ne hb, Function.update_of_ne hb]

/-- **A new attachment.** -/
theorem Staffed.attach (h : Staffed cfg s) (ps : ℕ) : Staffed cfg (s.etStationAttach cfg ps).2 := by
  unfold etStationAttach
  split
  · exact h
  split
  · exact h
  split
  · exact h
  split
  · exact h
  split
  case h_1 => exact h
  case h_2 i hi =>
    have hfree : (s.attach i).active = false := by
      simpa using List.find?_some hi
    have hlt : i < cfg.nattachments := List.mem_range.mp (List.mem_of_find?_eq_some hi)
    have hnone : ∀ x, s.attachedTo x i = false := fun x => by
      unfold attachedTo
      rw [hfree, Bool.false_and]
    set t : EventSystem := { s with
      nattachments := s.nattachments + 1
      attach := Function.update s.attach i ⟨true, some ps⟩
      stations := { s.stations with
        nattachments := Function.update s.stations.nattachments ps
          (s.stations.nattachments ps + 1)
        status := Function.update s.stations.status ps .active } }
    have hto : ∀ x, t.attachedTo x =
        Function.update (s.attachedTo x) i (if x = ps then true else false) := fun x =>
      attachedTo_update s i ps ⟨true, some ps⟩ x rfl rfl fun _ => hnone x
    have hself : t.stations.nattachments ps = s.stations.nattachments ps + 1 :=
      Function.update_self ..
    have hother : ∀ x, x ≠ ps → t.stations.nattachments x = s.stations.nattachments x := fun x hx =>
      Function.update_of_ne hx ..
    refine ⟨fun att hatt => ?_, fun x => ?_, fun x h0 => ?_, fun x h0 hx => ?_⟩
    · rcases eq_or_ne att i with rfl | hne
      · exact hlt
      · refine h.lt att ?_
        unfold Attached at hatt ⊢
        rwa [show t.attach att = s.attach att from Function.update_of_ne hne ..] at hatt
    · rw [hto]
      rcases eq_or_ne x ps with rfl | hne
      · rw [hself, if_pos rfl, AttachmentTables.countAtts_set hlt (hnone x), h.count]
      · rw [hother x hne, if_neg hne, h.count, ← hnone x, Function.update_eq_self]
    · rcases eq_or_ne x ps with rfl | hne
      · have hnonneg : 0 ≤ s.stations.nattachments x := by
          rw [h.count]
          exact AttachmentTables.countAtts_nonneg _
        rw [hself]
        exact ⟨fun _ => by omega, fun _ => Function.update_self ..⟩
      · rw [hother x hne, show t.stations.status x = s.stations.status x from
          Function.update_of_ne hne ..]
        exact h.active x h0
    · rcases eq_or_ne x ps with rfl | hne
      · exact absurd (Function.update_self ..) hx
      · rw [show t.stations.status x = s.stations.status x from Function.update_of_ne hne ..] at hx
        exact h.empty x h0 hx

/-- **The detach is a careful one**: it is of an attachment in use, and where it is the station's last
one, nobody interrupts the flush, and no events are restored into the list that has been flushed. -/
def CarefulDetach (cfg : EventConfig) (s : EventSystem) (interrupt : Option NoEvent) (att : ℕ) : Prop :=
  s.Attached att ∧ ∀ ps, (s.attach att).stat = some ps → ps ≠ 0 → s.stations.nattachments ps = 1 →
    interrupt = none ∧ ((s.stations.config ps).restoreMode = .inn → s.found cfg att .used = [])

/-- What the flush of a last attachment leaves. -/
theorem flushed (h : Conserved cfg s.Attached (fun _ => False) t) (hps : ps ≠ 0)
    (hfit : (t.list (.input ps)).length ≤ cfg.nevents) :
    NoArrivals t (t.etFlushEvents cfg none att ps) ∧
      (t.etFlushEvents cfg none att ps).list (.input ps) = [] ∧
      (t.etFlushEvents cfg none att ps).found cfg att .used = t.found cfg att .used := by
  obtain ⟨-, howner, -, honly⟩ := @Conserved.flush t cfg ps att none _ h
  refine ⟨etFlushEvents_arrivals, etFlushEvents_empties hps hfit, ?_⟩
  unfold found
  rw [howner, honly]

/-- **What a careful detach has left before it restores events**: where it was the last one, the
station is idle, its input list is empty, and no used event goes back into it. -/
theorem beforeRestore_careful (hall : AllInPlace cfg s)
    (hlast : ps ≠ 0 → s.stations.nattachments ps = 1 →
      interrupt = none ∧ ((s.stations.config ps).restoreMode = .inn → s.found cfg att .used = [])) :
    (∀ x, x ≠ ps → (s.beforeRestore cfg interrupt att ps).stations.status x =
        s.stations.status x) ∧
      (∀ x, x ≠ 0 → s.list (.input x) = [] →
        (s.beforeRestore cfg interrupt att ps).list (.input x) = []) ∧
      if s.stations.nattachments ps = 1 ∧ ps ≠ 0 then
        (s.beforeRestore cfg interrupt att ps).stations.status ps = .idle ∧
          (s.beforeRestore cfg interrupt att ps).list (.input ps) = [] ∧
          ¬ (((s.beforeRestore cfg interrupt att ps).stations.config ps).restoreMode = .inn ∧
            (s.beforeRestore cfg interrupt att ps).found cfg att .used ≠ [])
      else (s.beforeRestore cfg interrupt att ps).stations.status ps = s.stations.status ps := by
  unfold beforeRestore
  split
  case isTrue hone =>
    obtain ⟨rfl, hused⟩ := hlast hone.2 hone.1
    have hreleased : Conserved cfg s.Attached (fun _ => False) (s.released att ps) :=
      Conserved.congr hall rfl rfl
    have hfit : ((s.released att ps).list (.input ps)).length ≤ cfg.nevents :=
      le_trans (Nat.le_add_right ..) (hall.lists_fit (l := .input ps) (m := .output 0) nofun)
    have hstatus : (s.released att ps).stations.status =
        Function.update s.stations.status ps .idle := if_pos hone
    obtain ⟨hnone, hnil, hfound⟩ := flushed hreleased hone.2 hfit
    refine ⟨fun x hx => ?_, fun x h0 hx => hnone.empty h0 hx, ?_, hnil, ?_⟩
    · rw [hnone.stations, hstatus]
      exact Function.update_of_ne hx ..
    · rw [hnone.stations, hstatus]
      exact Function.update_self ..
    · rw [hnone.stations, hfound]
      exact fun hin => hin.2 (hused hin.1)
  case isFalse hmore =>
    have hstatus : (s.released att ps).stations.status = s.stations.status := if_neg hmore
    rw [hstatus]
    exact ⟨fun _ _ => rfl, fun _ _ => id, rfl⟩

/-- **A careful detach.** -/
theorem Staffed.detach (h : Staffed cfg s) (hall : AllInPlace cfg s)
    (hcare : CarefulDetach cfg s interrupt att) :
    Staffed cfg (s.etStationDetach cfg cleanup interrupt os att).2 := by
  obtain ⟨hatt, hlastCare⟩ := hcare
  have hlt := h.lt att hatt
  rcases s.etStationDetach_cases cfg cleanup interrupt os att with heq | ⟨ps, -, hstat, heq⟩
  case inl =>
    rw [heq]
    exact h
  case inr =>
    rw [heq]
    have hmine : s.attachedTo ps att = true := by
      unfold attachedTo
      rw [hstat, decide_eq_true rfl, Bool.and_true]
      exact hatt
    have hnot : ∀ x, x ≠ ps → s.attachedTo x att = false := fun x hx => by
      unfold attachedTo
      rw [hstat, decide_eq_false fun heq => hx (Option.some.inj heq).symm, Bool.and_false]
    have hpos : 0 < s.stations.nattachments ps := by
      rw [h.count, AttachmentTables.countAtts_pos_iff]
      exact ⟨att, hlt, hmine⟩
    obtain ⟨-, -, -, hmoves⟩ := hall.beforeRestore interrupt att ps
    obtain ⟨hother, hempty, hlast⟩ := beforeRestore_careful hall (hlastCare ps hstat)
    have hattach : (s.beforeRestore cfg interrupt att ps).attach =
        Function.update s.attach att ⟨false, some ps⟩ := by
      rw [hmoves]
      rfl
    have hnatts : (s.beforeRestore cfg interrupt att ps).stations.nattachments =
        s.stations.nattachments := by
      rw [hmoves]
      rfl
    have hback := @etRestoreEvents_arrivals (s.beforeRestore cfg interrupt att ps) cfg os att ps
      cleanup
    set u := s.beforeRestore cfg interrupt att ps
    set v := u.etRestoreEvents cfg cleanup os att ps
    have hto : ∀ x, (v.countedDown ps).attachedTo x =
        Function.update (s.attachedTo x) att false := fun x => by
      have heq := attachedTo_update s att ps ⟨false, some ps⟩ x
        (hback.attach.trans hattach : (v.countedDown ps).attach = _) rfl (hnot x)
      dsimp only at heq
      rwa [ite_self] at heq
    have hself : (v.countedDown ps).stations.nattachments ps =
        s.stations.nattachments ps - 1 := by
      show Function.update v.stations.nattachments ps _ ps = _
      rw [Function.update_self, hback.stations, hnatts]
    have hrest : ∀ x, x ≠ ps →
        (v.countedDown ps).stations.nattachments x = s.stations.nattachments x := by
      intro x hx
      show Function.update v.stations.nattachments ps _ x = _
      rw [Function.update_of_ne hx, hback.stations, hnatts]
    have hstatus : ∀ x, (v.countedDown ps).stations.status x = u.stations.status x := fun x => by
      rw [← hback.stations]
      rfl
    refine ⟨fun b hb => ?_, fun x => ?_, fun x h0 => ?_, fun x h0 hx => ?_⟩
    · rcases eq_or_ne b att with rfl | hne
      · exact hlt
      · refine h.lt b ?_
        unfold Attached at hb ⊢
        rwa [show (v.countedDown ps).attach = _ from hback.attach.trans hattach,
          Function.update_of_ne hne] at hb
    · rw [hto]
      rcases eq_or_ne x ps with rfl | hne
      · rw [hself, AttachmentTables.countAtts_clear hlt hmine, h.count]
      · rw [hrest x hne, h.count, ← hnot x hne, Function.update_eq_self]
    · rw [hstatus]
      rcases eq_or_ne x ps with rfl | hne
      · rw [hself]
        have hactive := (h.active x h0).mpr hpos
        split at hlast
        case isTrue hone =>
          rw [hlast.1, hone.1]
          exact iff_of_false StatStatus.noConfusion (by omega)
        case isFalse hmany =>
          rw [hlast]
          have hne : s.stations.nattachments x ≠ 1 := fun h1 => hmany ⟨h1, h0⟩
          exact iff_of_true hactive (by omega)
      · rw [hrest x hne, hother x hne]
        exact h.active x h0
    · rw [hstatus] at hx
      rcases eq_or_ne x ps with rfl | hne
      · split at hlast
        case isTrue => exact hback.empty h0 (fun hin => hlast.2.2 hin.2) hlast.2.1
        case isFalse =>
          rw [hlast] at hx
          exact absurd ((h.active x h0).mpr hpos) hx
      · rw [hother x hne] at hx
        exact hback.empty h0 (fun hin => hne hin.1) (hempty x h0 (h.empty x h0 hx))

end EventSystem

/-! ## Runs -/

open EventSystem

/-- **A fresh system** in which nobody is attached to a station, and only GRAND_CENTRAL is active. -/
structure EventSystem.Unattended (cfg : EventConfig) (s : EventSystem) : Prop where
  fresh : s.Fresh cfg
  nattachments : ∀ ps, s.stations.nattachments ps = 0
  status : ∀ ps, ps ≠ 0 → s.stations.status ps ≠ .active

/-- The system as a machine that starts so. -/
def attendedMachine (cfg : EventConfig) : Machine EventSystem EventStep :=
  { eventMachine cfg with start := EventSystem.Unattended cfg }

theorem attendedMachine_next {cfg : EventConfig} {P : EventSystem → EventStep → Prop}
    {s t : EventSystem} (h : (attendedMachine cfg).Reach P s) (a : EventStep) (ha : P s a)
    (hfits : a.Fits s) (hnext : a.next cfg s = some t) : (attendedMachine cfg).Reach P t :=
  .step a h ha ⟨hfits, hnext⟩

/-- The step loses no event, and a detach is a careful one. -/
def EventStep.LeavesNothing (cfg : EventConfig) (s : EventSystem) : EventStep → Prop
  | .detach att _ interrupt _ => CarefulDetach cfg s interrupt att
  | a => a.KeepsEvents cfg s

theorem EventStep.LeavesNothing.keepsEvents {cfg : EventConfig} {s : EventSystem} {a : EventStep}
    (h : a.LeavesNothing cfg s) : a.KeepsEvents cfg s := by
  cases a with
  | detach => trivial
  | call => exact h
  | conduct => exact h
  | attach => trivial
  | setFields => trivial

/-- **A pass of a conductor** brings events to active stations only. -/
theorem EventSystem.Staffed.conduct {cfg : EventConfig} {s : EventSystem} {u : Pass} {me : ℕ}
    {gs : List Group} {select : ℕ → ℕ → Bool} {eventsTry : ℕ → ℕ} (h : Staffed cfg s)
    (hall : AllInPlace cfg s) (hchain : ChainOk s.stations gs) (hme : me ∈ members gs)
    (hwell : (s.passStart eventsTry me).AllDealWell s.hdr cfg.nevents select (following gs me))
    (hu : s.pass cfg select gs me eventsTry = some u) (os : OsAnswers) :
    Staffed cfg (s.afterPass os me u) := by
  obtain ⟨_, hpassed, -⟩ := pass_passedOn hall hchain hme hwell hu os
  obtain ⟨given, hpass, -⟩ := pass_passes hall hchain hme hwell hu os
  refine h.of_arrivals hpassed.attach ?_ ?_ fun ps h0 hps hnil => ?_
  · rw [hpass.stations]
  · rw [hpass.stations]
  · have hgiven : given ps = [] := by
      by_contra hne
      exact hps (hpass.active ps h0 hne)
    rw [hpass.input ps h0, hgiven, hnil]
    rfl

theorem EventSystem.Staffed.next {cfg : EventConfig} {s t : EventSystem} {a : EventStep}
    (h : Staffed cfg s) (hall : AllInPlace cfg s) (ha : a.LeavesNothing cfg s) (hfits : a.Fits s)
    (hnext : a.next cfg s = some t) : Staffed cfg t := by
  cases a with
  | call c os =>
      obtain rfl := Option.some.inj hnext
      have hnone : NoArrivals s (c.perform cfg os.alone s).2 := perform_arrivals c
      exact h.of_arrivals hnone.attach (by rw [hnone.stations]) (by rw [hnone.stations])
        fun _ h0 _ hnil => hnone.empty h0 hnil
  | conduct me gs select eventsTry os =>
      obtain ⟨u, hu, rfl⟩ := Option.map_eq_some_iff.mp hnext
      exact h.conduct hall hfits.1 hfits.2 ha hu os
  | attach ps =>
      obtain rfl := Option.some.inj hnext
      exact h.attach ps
  | detach att cleanup interrupt os =>
      obtain rfl := Option.some.inj hnext
      exact h.detach hall ha
  | setFields e priority datastatus length control =>
      obtain rfl := Option.some.inj hnext
      exact h.of_arrivals rfl rfl rfl fun _ _ _ => id

theorem EventSystem.Unattended.staffed {cfg : EventConfig} {s : EventSystem} (h : s.Unattended cfg) :
    Staffed cfg s := by
  have hnobody : ∀ ps att, s.attachedTo ps att = false := fun ps att => by
    unfold attachedTo
    rw [h.fresh.attach]
    rfl
  refine ⟨fun att hatt => ?_, fun ps => ?_, fun ps h0 => ?_, fun ps h0 _ => h.fresh.empty _ ?_⟩
  · unfold Attached at hatt
    rw [h.fresh.attach] at hatt
    cases hatt
  · rw [h.nattachments, AttachmentTables.countAtts_congr fun att _ => hnobody ps att]
    simp [countAtts]
  · rw [h.nattachments]
    exact iff_of_false (h.status ps h0) (lt_irrefl 0)
  · exact fun heq => h0 (ListName.input.inj heq)

/-- **There is nothing in the input list of a station that nobody is attached to**, and the stations
that somebody is attached to are the active ones, in every state reached by event calls, passes of
conductors, attaches and careful detaches. -/
theorem idle_stations_empty {cfg : EventConfig} {s : EventSystem}
    (h : (attendedMachine cfg).Reach (fun s a => a.LeavesNothing cfg s) s) (ps : ℕ) (h0 : ps ≠ 0) :
    (s.stations.status ps = .active ↔ 0 < s.stations.nattachments ps) ∧
      (s.stations.nattachments ps = 0 → s.list (.input ps) = []) := by
  have hboth : AllInPlace cfg s ∧ Staffed cfg s :=
    @Machine.Reach.invariant _ _ _ _ _ (fun s => AllInPlace cfg s ∧ Staffed cfg s) h
      (fun s hs => ⟨hs.fresh.allInPlace, hs.staffed⟩) fun s a t hs ha hstep =>
        ⟨hs.1.next a ha.keepsEvents hstep.1 hstep.2, hs.2.next hs.1 ha hstep.1 hstep.2⟩
  obtain ⟨-, hstaffed⟩ := hboth
  have hactive := hstaffed.active ps h0
  refine ⟨hactive, fun hnobody => hstaffed.empty ps h0 ?_⟩
  rw [ne_eq, hactive, hnobody]
  exact lt_irrefl 0

theorem unattended_startedThree : startedThree.Unattended twoReaders := by
  refine ⟨fresh_startedThree, fun _ => rfl, fun ps h0 => ?_⟩
  show (if ps = 0 then StatStatus.active else if ps = 1 then .idle else .unused) ≠ .active
  rw [if_neg h0]
  split
  · exact StatStatus.noConfusion
  · exact StatStatus.noConfusion

/-- Three events come to the station `1`, and its only attachment gets one of them and detaches: the
other two are flushed into the output list, and the one that was got is restored behind them. -/
theorem idle_stations_empty_example : ∃ s t,
    (attendedMachine twoReaders).Reach (fun s a => a.LeavesNothing twoReaders s) s ∧
      (EventStep.detach 1 false none .fine).next twoReaders s = some t ∧
      (attendedMachine twoReaders).Reach (fun s a => a.LeavesNothing twoReaders s) t ∧
      s.owner 0 = 1 ∧ s.list (.input 1) = [1, 2] ∧ s.list (.output 1) = [] ∧
      t.stations.status 1 = .idle ∧ t.list (.input 1) = [] ∧ t.list (.output 1) = [1, 2, 0] := by
  have h0 : (attendedMachine twoReaders).Reach (fun s a => a.LeavesNothing twoReaders s)
      startedThree := .start unattended_startedThree
  have h1 := attendedMachine_next h0 (.attach 0) trivial trivial rfl
  have h2 := attendedMachine_next h1 (.attach 1) trivial trivial rfl
  have h3 := attendedMachine_next h2 (.call askForThree .fine) trivial trivial rfl
  have h4 := attendedMachine_next h3 (.call (.putMany 0 (some [0, 1, 2])) .fine)
    (LocalCall.namesOnce_putMany (by decide) _) trivial rfl
  have h5 := attendedMachine_next h4
    (.conduct 0 [(0, []), (1, [])] (fun _ _ => true) (fun _ => 0) .fine)
    (Pass.allDealWell_singleton (by unfold Stations.TakesEvents; decide) ..)
    ⟨chainOk_attached, by decide⟩ rfl
  have h6 := attendedMachine_next h5 (.call (.get ⟨1, true, some .async, none, [], none⟩) .fine)
    trivial trivial rfl
  have h7 := attendedMachine_next h6 (.detach 1 false none .fine)
    ⟨rfl, fun ps hps _ _ => ⟨rfl, ?_⟩⟩ trivial rfl
  · exact ⟨_, _, h6, rfl, h7, by decide, by decide, by decide, by decide,
      (idle_stations_empty h7 1 Nat.one_ne_zero).2 (by decide), by decide⟩
  · obtain rfl : ps = 1 := Option.some.inj (hps.symm.trans rfl)
    exact fun hmode => RestoreMode.noConfusion hmode

end EventTransfer
