import EventTransfer.AttachmentDeath
import EventTransfer.Lib.StepRun

/-!
# Runs on the tables of attachments

Processes open and close the system, attach to stations and detach, and create, change and remove
stations; the ET server attaches and detaches for its remote users.  A process can die at any time, also
between two stores of an attach or a detach.  A death and the clean-up are one step: `et_fix_mutexes`
unlocks the station mutex of the dead process before the monitor locks it, so another process that waits
for it could still get in between; such runs are left out.

A process that takes the system for dead, because its heartbeat has not been seen for a while, is not
refused by `etl_close`: its slot is initialised while its attachments stay.

* `dying_repaired_iff` — where a process may die.
* `Consistent.etInitProcess_iff` — who may close the system while it seems to be dead.
* `attachment_tables_consistent` — in a run in which processes die and close only so, and detach only
  what is theirs, the tables are consistent at all times.
* `FenceState.tables_attachTo`, `tables_detachBy`, `tables_cleanUp` — the stores of a whole call make
  the step that `EventTransfer.Fencing` has for it.
-/

namespace EventTransfer

open StoreProgram Prog FenceState StepRun

/-- A call that a process can die in. -/
inductive AttachmentCall
  | attach (st : ℕ)
  | detach (a : ℕ)
  deriving DecidableEq, Repr

/-- The steps.  `proc` is `none` for the ET server; a process dies after `n` stores of the call; `alive` is
what `etl_alive` says to a process that closes. -/
inductive AttachmentAct
  | openSlot (p : ℕ)
  | closeSlot (p : ℕ) (alive : Bool)
  | attach (proc : Option ℕ) (st : ℕ)
  | detach (proc : Option ℕ) (a : ℕ)
  | createStation (st : ℕ) (user : ℤ)
  | removeStation (st : ℕ)
  | setUser (st : ℕ) (user : ℤ)
  | die (p : ℕ) (call : Option AttachmentCall) (n : ℕ)
  deriving DecidableEq, Repr

namespace AttachmentTables

variable {c : TableSizes} {r s t : AttachmentTables} {k : AttachmentCall} {x : AttachmentAct}
  {proc : Option ℕ} {a p st : ℕ} {user : ℤ}

/-! ## The machine -/

/-- The memories that a process can leave when it dies in a call. -/
def crashes (c : TableSizes) (p : ℕ) (r : AttachmentTables) : AttachmentCall → List AttachmentTables
  | .attach st => crashStates (etStationAttach c (some p) st) r
  | .detach a => crashStates (etStationDetach c false (some p) a) r

/-- The attachment is in use, and its process is the given one. -/
def Own (r : AttachmentTables) (proc : Option ℕ) (a : ℕ) : Prop :=
  r.Used a ∧ (r.attach a).proc = proc

instance (r : AttachmentTables) (proc : Option ℕ) (a : ℕ) : Decidable (r.Own proc a) :=
  inferInstanceAs (Decidable (_ ∧ _))

/-- A process detaches only what is its own. -/
def Proper (p : ℕ) (r : AttachmentTables) : AttachmentCall → Prop
  | .attach _ => True
  | .detach a => r.Own (some p) a

/-- **Where a process may die.** -/
def Harmless (c : TableSizes) (p : ℕ) (r t : AttachmentTables) : AttachmentCall → Prop
  | .attach st => AttachHarmless c p st r t
  | .detach a => ∀ st, (r.attach a).stat = some st → DetachHarmless c p a st r t

/-- `etl_close` is refused while the process has attachments, if the system is alive. -/
def closeSlot (c : TableSizes) (s : AttachmentTables) (p : ℕ) (alive : Bool) :
    Option AttachmentTables :=
  if alive = true ∧ ∃ a < c.nattachments, (s.atts p).att a = true then none
  else some (s.etInitProcess p)

/-- `et_station_create_at`: the station is initialized, and idle in the end. -/
def createStation (s : AttachmentTables) (st : ℕ) (user : ℤ) : Option AttachmentTables :=
  if (s.stat st).status = .unused then
    some (s.setStation st fun _ => ⟨.idle, 0, user, fun _ => false⟩)
  else none

/-- `et_station_remove`. -/
def removeStation (s : AttachmentTables) (st : ℕ) : Option AttachmentTables :=
  if st = 0 ∨ 0 < (s.stat st).nattachments then none
  else some (s.setStation st fun ps => { ps with status := .unused })

/-- One step. -/
def step (c : TableSizes) (s : AttachmentTables) : AttachmentAct → Option AttachmentTables
  | .openSlot p =>
      if p < c.nprocesses ∧ s.opened p = false then
        some { s with opened := Function.update s.opened p true }
      else none
  | .closeSlot p alive =>
      if p < c.nprocesses ∧ s.opened p = true then closeSlot c s p alive else none
  | .attach proc st =>
      if ∀ p ∈ proc, p < c.nprocesses ∧ s.opened p = true then
        some (final (etStationAttach c proc st) s)
      else none
  | .detach proc a => some (final (etStationDetach c false proc a) s)
  | .createStation st user => if st < c.nstations then createStation s st user else none
  | .removeStation st => if st < c.nstations then removeStation s st else none
  | .setUser st user =>
      if 0 < st ∧ st < c.nstations ∧ 0 ≤ user then
        some (s.setStation st fun ps => { ps with userMode := user })
      else none
  | .die p call n =>
      if p < c.nprocesses ∧ s.opened p = true then
        ((call.elim [s] (crashes c p s))[n]?).map fun t => t.cleanUp c p
      else none

/-- At the start there are no attachments, and GRAND_CENTRAL is the only station. -/
def Start (s : AttachmentTables) : Prop :=
  s.attach = (fun _ => .init) ∧ s.atts = (fun _ => .init) ∧ s.opened = (fun _ => false) ∧
    s.nattachments = 0 ∧ (s.stat 0).status = .active ∧
    (∀ st, st ≠ 0 → (s.stat st).status = .unused) ∧
    ∀ st, (s.stat st).nattachments = 0 ∧ (s.stat st).att = fun _ => false

/-- **The system with tables of the given sizes.** -/
def machine (c : TableSizes) : Machine AttachmentTables AttachmentAct := .ofStep Start (step c)

/-- A process detaches only what is its own, closes with attachments only while it takes the system for
alive, and dies only where it may; and no limit is set under the number of attachments. -/
def Careful (c : TableSizes) (s : AttachmentTables) : AttachmentAct → Prop
  | .closeSlot p alive => alive = false → ∀ a < c.nattachments, (s.atts p).att a = false
  | .detach proc a => s.Own proc a
  | .setUser st user => 0 < user → (s.stat st).nattachments ≤ user
  | .die p (some k) n => s.Proper p k ∧ ∀ t ∈ (crashes c p s k)[n]?, Harmless c p s t k
  | _ => True

/-! ## One step -/

theorem final_etStationAttach {i : ℕ} (hst : st < c.nstations)
    (hstatus : ¬ ((s.stat st).status ≠ .active ∧ (s.stat st).status ≠ .idle))
    (hlimit : ¬ (0 < (s.stat st).userMode ∧ (s.stat st).userMode ≤ (s.stat st).nattachments))
    (hfull : ¬ (c.nattachments : ℤ) ≤ s.nattachments) (hfree : s.freeEntry c = some i) :
    final (etStationAttach c proc st) s = s.attached proc st i := by
  unfold etStationAttach
  rw [final_bind, final_get, value_get, if_neg (not_le.mpr hst)]
  rw [if_neg hstatus, if_neg hlimit, if_neg hfull, hfree]
  dsimp only
  rw [final_bind, final_pure, final_attachStores]

/-- **An attach**, refused or not. -/
theorem Consistent.final_attach (hs : s.Consistent c)
    (hproc : ∀ p, proc = some p → p < c.nprocesses ∧ s.opened p = true) :
    (final (etStationAttach c proc st) s).Consistent c := by
  by_cases hlt : c.nstations ≤ st
  · unfold etStationAttach
    rw [final_bind, final_get, value_get, if_pos hlt]
    exact hs
  by_cases hstatus : (s.stat st).status ≠ .active ∧ (s.stat st).status ≠ .idle
  · unfold etStationAttach
    rw [final_bind, final_get, value_get, if_neg hlt]
    rw [if_pos hstatus]
    exact hs
  by_cases hlimit : 0 < (s.stat st).userMode ∧ (s.stat st).userMode ≤ (s.stat st).nattachments
  · unfold etStationAttach
    rw [final_bind, final_get, value_get, if_neg hlt]
    rw [if_neg hstatus, if_pos hlimit]
    exact hs
  by_cases hfull : (c.nattachments : ℤ) ≤ s.nattachments
  · unfold etStationAttach
    rw [final_bind, final_get, value_get, if_neg hlt]
    rw [if_neg hstatus, if_neg hlimit, if_pos hfull]
    exact hs
  cases hfree : s.freeEntry c with
  | none =>
      unfold etStationAttach
      rw [final_bind, final_get, value_get, if_neg hlt]
      rw [if_neg hstatus, if_neg hlimit, if_neg hfull, hfree]
      exact hs
  | some i =>
      obtain ⟨hi, hunused⟩ := freeEntry_eq_some hfree
      rw [final_etStationAttach (not_le.mp hlt) hstatus hlimit hfull hfree]
      exact hs.attached hi (not_not.mp hunused) (not_le.mp hlt) hlimit hproc

/-- **A detach** of an attachment by its owner. -/
theorem Consistent.final_detach (hs : s.Consistent c) (hown : s.Own proc a) :
    (final (etStationDetach c false proc a) s).Consistent c := by
  obtain ⟨hused, hproc⟩ := hown
  obtain ⟨ha, -, -, ⟨st, -, hstat⟩, -⟩ := hs.used a hused
  unfold etStationDetach
  rw [final_bind, final_get, value_get, if_neg (not_le.mpr ha), hstat]
  dsimp only
  rw [final_bind, final_pure, if_neg Bool.false_ne_true, final_detachStores]
  exact hs.detached hused hstat hproc

/-- **A slot is opened or closed** that has no attachments. -/
theorem Consistent.of_slot (hs : s.Consistent c) (hnone : ∀ a, (s.atts p).att a = false)
    (hattach : t.attach = s.attach) (hstat : t.stat = s.stat)
    (hnatts : t.nattachments = s.nattachments) (hself : t.atts p = s.atts p ∨ t.atts p = .init)
    (hatts : ∀ q, q ≠ p → t.atts q = s.atts q) (hopened : ∀ q, q ≠ p → t.opened q = s.opened q)
    (hp : p < c.nprocesses) : t.Consistent c := by
  have hused : ∀ a, t.Used a ↔ s.Used a := fun a => by unfold Used; rw [hattach]
  have hatt : ∀ q a, (t.atts q).att a = (s.atts q).att a := by
    intro q a
    rcases eq_or_ne q p with rfl | hne
    · rcases hself with h | h
      · rw [h]
      · rw [h, hnone]
        rfl
    · rw [hatts q hne]
  refine ⟨fun a ha => ?_, fun a ha => ?_, fun x hx a => ?_, fun q hq a => ?_, fun x hx => ?_,
    fun q hq => ?_, ?_, ?_, fun x hx => ?_, fun x hx => ?_⟩
  · obtain ⟨hlt, hnum, hact, hst, hproc⟩ := hs.used a ((hused a).mp ha)
    rw [hattach]
    refine ⟨hlt, hnum, hact, hst, fun q hq => ⟨(hproc q hq).1, ?_⟩⟩
    have hne : q ≠ p := by
      rintro rfl
      have hmine := (hs.proc q hp a).mpr ⟨(hused a).mp ha, hq⟩
      rw [hnone] at hmine
      cases hmine
    rw [hopened q hne]
    exact (hproc q hq).2
  · rw [hattach]
    exact hs.free a fun h => ha ((hused a).mpr h)
  · rw [hstat, hattach, hused]
    exact hs.stat x hx a
  · rw [hatt, hattach, hused]
    exact hs.proc q hq a
  · rw [hstat]
    exact hs.statCount x hx
  · rw [countAtts_congr fun a _ => hatt q a, ← hs.procCount q hq]
    rcases eq_or_ne q p with rfl | hne
    · rcases hself with h | h
      · rw [h]
      · rw [h, hs.procCount q hq, countAtts_congr fun a _ => hnone a]
        simp [ProcAtts.init, countAtts]
    · rw [hatts q hne]
  · rw [hnatts, hs.count]
    exact countAtts_congr fun a _ => decide_eq_decide.mpr (hused a).symm
  · rw [hstat]
    exact hs.grandCentral
  · rw [hstat]
    exact hs.status x hx
  · rw [hstat]
    exact hs.limit x hx

/-- A process whose slot is not open has no attachments. -/
theorem Consistent.att_of_closed (hs : s.Consistent c) (hp : p < c.nprocesses)
    (hclosed : s.opened p = false) (a : ℕ) : (s.atts p).att a = false := by
  refine Bool.eq_false_iff.mpr fun hmine => ?_
  obtain ⟨hused, hproc⟩ := (hs.proc p hp a).mp hmine
  have hopen := ((hs.used a hused).2.2.2.2 p hproc).2
  rw [hclosed] at hopen
  cases hopen

/-- **A close that is not refused** keeps the tables consistent exactly if the process has no
attachments. -/
theorem Consistent.etInitProcess_iff (hs : s.Consistent c) (hp : p < c.nprocesses) :
    (s.etInitProcess p).Consistent c ↔ ∀ a < c.nattachments, (s.atts p).att a = false := by
  constructor
  · intro ht a _
    refine Bool.eq_false_iff.mpr fun hatt => ?_
    obtain ⟨hused, hproc⟩ := (hs.proc p hp a).mp hatt
    -- the attachment stays, and its process has no slot now
    have hopen := ((ht.used a hused).2.2.2.2 p hproc).2
    rw [show (s.etInitProcess p).opened p = false from Function.update_self ..] at hopen
    cases hopen
  · intro hnone
    refine hs.of_slot (fun a => Bool.eq_false_iff.mpr fun hatt => ?_) rfl rfl rfl
      (.inr (Function.update_self ..)) (fun q hq => Function.update_of_ne hq ..)
      (fun q hq => Function.update_of_ne hq ..) hp
    have hlt := (hs.used a ((hs.proc p hp a).mp hatt).1).1
    rw [hnone a hlt] at hatt
    cases hatt

/-- **A station without attachments** gets a new status, and a new limit. -/
theorem Consistent.of_station (hs : s.Consistent c) (hst : st < c.nstations) {u : AttStation}
    (hatt : ∀ a, u.att a = (s.stat st).att a) (hnatts : u.nattachments = (s.stat st).nattachments)
    (hactive : u.status = .active ↔ (s.stat st).status = .active)
    (hlimit : 0 < u.userMode → u.nattachments ≤ u.userMode) :
    (s.setStation st fun _ => u).Consistent c := by
  have hself : (s.setStation st fun _ => u).stat st = u := Function.update_self ..
  have hother : ∀ x, x ≠ st → (s.setStation st fun _ => u).stat x = s.stat x := fun x hx =>
    Function.update_of_ne hx ..
  refine ⟨hs.used, hs.free, fun x hx a => ?_, hs.proc, fun x hx => ?_, hs.procCount, hs.count, ?_,
    fun x hx h0 => ?_, fun x hx => ?_⟩
  · have hsame : ((s.setStation st fun _ => u).stat x).att a = (s.stat x).att a := by
      rcases eq_or_ne x st with rfl | hne
      · rw [hself, hatt]
      · rw [hother x hne]
    rw [hsame]
    exact hs.stat x hx a
  · rcases eq_or_ne x st with rfl | hne
    · rw [hself, hnatts, hs.statCount x hx]
      exact countAtts_congr fun a _ => (hatt a).symm
    · rw [hother x hne]
      exact hs.statCount x hx
  · rcases eq_or_ne 0 st with rfl | hne
    · rw [hself, hactive]
      exact hs.grandCentral
    · rw [hother 0 hne]
      exact hs.grandCentral
  · rcases eq_or_ne x st with rfl | hne
    · rw [hself, hactive, hnatts]
      exact hs.status x hx h0
    · rw [hother x hne]
      exact hs.status x hx h0
  · rcases eq_or_ne x st with rfl | hne
    · rw [hself]
      exact hlimit
    · rw [hother x hne]
      exact hs.limit x hx

/-- A station that is not active has no attachments. -/
theorem Consistent.nothing_at (hs : s.Consistent c) (hst : st < c.nstations) (h0 : st ≠ 0)
    (hpassive : (s.stat st).status ≠ .active) :
    (s.stat st).nattachments = 0 ∧ ∀ a, (s.stat st).att a = false := by
  have hcount := hs.statCount st hst
  have hnonneg : 0 ≤ countAtts c (s.stat st).att := countAtts_nonneg _
  have hnone := mt (hs.status st hst h0).mpr hpassive
  refine ⟨by omega, fun a => Bool.eq_false_iff.mpr fun hatt => hnone ?_⟩
  rw [hcount, countAtts_pos_iff]
  exact ⟨a, (hs.used a ((hs.stat st hst a).mp hatt).1).1, hatt⟩

/-- **A process that dies where it may.** -/
theorem Consistent.cleanUp_crash (hs : s.Consistent c) (hp : p < c.nprocesses) (hown : s.Proper p k)
    (ht : t ∈ crashes c p s k) (hharmless : Harmless c p s t k) : Repaired c p s t := by
  cases k with
  | attach st => exact (attach_crash_iff hs hp ht).mpr hharmless
  | detach a =>
      obtain ⟨hused, hproc⟩ := hown
      obtain ⟨-, -, -, ⟨st, -, hstat⟩, -⟩ := hs.used a hused
      exact (detach_crash_iff hs hused hproc hstat ht).mpr (hharmless st hstat)

theorem Consistent.step (hs : s.Consistent c) (hcare : Careful c s x)
    (h : s.step c x = some t) : t.Consistent c := by
  cases x with
  | openSlot p =>
      obtain ⟨⟨hp, hclosed⟩, rfl⟩ := Option.ite_none_right_eq_some.mp h |>.imp id Option.some.inj
      exact hs.of_slot (hs.att_of_closed hp hclosed) rfl rfl rfl (.inl rfl) (fun _ _ => rfl)
        (fun q hq => Function.update_of_ne hq ..) hp
  | closeSlot p alive =>
      obtain ⟨⟨hp, -⟩, h⟩ := Option.ite_none_right_eq_some.mp h
      obtain ⟨hallowed, rfl⟩ := Option.ite_none_left_eq_some.mp h |>.imp id Option.some.inj
      refine (hs.etInitProcess_iff hp).mpr ?_
      cases alive with
      | false => exact hcare rfl
      | true => exact fun a ha => Bool.eq_false_iff.mpr fun hatt => hallowed ⟨rfl, a, ha, hatt⟩
  | attach proc st =>
      obtain ⟨hproc, rfl⟩ := Option.ite_none_right_eq_some.mp h |>.imp id Option.some.inj
      exact hs.final_attach hproc
  | detach proc a =>
      obtain rfl := Option.some.inj h
      exact hs.final_detach hcare
  | createStation st user =>
      obtain ⟨hst, h⟩ := Option.ite_none_right_eq_some.mp h
      obtain ⟨hunused, rfl⟩ := Option.ite_none_right_eq_some.mp h |>.imp id Option.some.inj
      have hpassive : (s.stat st).status ≠ .active := by
        rw [hunused]
        exact StatStatus.noConfusion
      have h0 : st ≠ 0 := fun h0 => hpassive (h0 ▸ hs.grandCentral)
      obtain ⟨hcount, hatt⟩ := hs.nothing_at hst h0 hpassive
      exact hs.of_station hst (fun a => (hatt a).symm) hcount.symm
        (iff_of_false StatStatus.noConfusion hpassive) fun hpos => hpos.le
  | removeStation st =>
      obtain ⟨hst, h⟩ := Option.ite_none_right_eq_some.mp h
      obtain ⟨hnone, rfl⟩ := Option.ite_none_left_eq_some.mp h |>.imp id Option.some.inj
      rw [not_or] at hnone
      have hpassive : (s.stat st).status ≠ .active := fun hactive =>
        hnone.2 ((hs.status st hst hnone.1).mp hactive)
      exact hs.of_station (u := { s.stat st with status := .unused }) hst (fun _ => rfl) rfl
        (iff_of_false StatStatus.noConfusion hpassive) (hs.limit st hst)
  | setUser st user =>
      obtain ⟨⟨-, hst, -⟩, rfl⟩ := Option.ite_none_right_eq_some.mp h |>.imp id Option.some.inj
      exact hs.of_station (u := { s.stat st with userMode := user }) hst (fun _ => rfl) rfl Iff.rfl
        hcare
  | die p call n =>
      obtain ⟨⟨hp, -⟩, h⟩ := Option.ite_none_right_eq_some.mp h
      obtain ⟨u, hu, rfl⟩ := Option.map_eq_some_iff.mp h
      cases call with
      | none =>
          obtain rfl := List.mem_singleton.mp (List.mem_of_getElem? hu)
          exact (hs.repaired hp).1
      | some k =>
          obtain ⟨hown, hharmless⟩ := hcare
          exact (hs.cleanUp_crash hp hown (List.mem_of_getElem? hu) (hharmless u hu)).1

theorem Start.consistent (hs : s.Start) : s.Consistent c := by
  obtain ⟨hattach, hatts, hopened, hnatts, hgc, hstat, hcount⟩ := hs
  have hunused : ∀ a, ¬ s.Used a := fun a hused => hused (by rw [hattach]; rfl)
  have hzero : ∀ att : ℕ → Bool, (∀ a, att a = false) → countAtts c att = 0 := fun att hatt => by
    simp [countAtts, hatt]
  refine ⟨fun a ha => absurd ha (hunused a), fun a _ => by rw [hattach]; rfl, fun st _ a => ?_,
    fun p _ a => ?_, fun st _ => ?_, fun p _ => ?_, ?_, hgc, fun st _ h0 => ?_, fun st _ hpos => ?_⟩
  · exact iff_of_false (by simp [(hcount st).2]) fun h => hunused a h.1
  · exact iff_of_false (by simp [hatts, ProcAtts.init]) fun h => hunused a h.1
  · rw [(hcount st).1, hzero _ fun a => by rw [(hcount st).2]]
  · rw [hatts]
    exact (hzero _ fun a => rfl).symm
  · rw [hnatts, hzero _ fun a => decide_eq_false (hunused a)]
  · rw [hstat st h0, (hcount st).1]
    exact iff_of_false StatStatus.noConfusion (lt_irrefl 0)
  · rw [(hcount st).1]
    exact hpos.le

/-! ## The results -/

/-- **A process that dies in an attach or in a detach of its own**: the clean-up leaves consistent
tables without the attachments of the process if, and only if, it died where it may. -/
theorem dying_repaired_iff (hs : s.Consistent c) (hp : p < c.nprocesses) (hown : s.Proper p k)
    (ht : t ∈ crashes c p s k) : Repaired c p s t ↔ Harmless c p s t k := by
  refine ⟨fun hrep => ?_, hs.cleanUp_crash hp hown ht⟩
  cases k with
  | attach st => exact (attach_crash_iff hs hp ht).mp hrep
  | detach a =>
      obtain ⟨hused, hproc⟩ := hown
      exact fun st hstat => (detach_crash_iff hs hused hproc hstat ht).mp hrep

/-- The tables at the start. -/
def fresh : AttachmentTables where
  attach _ := .init
  stat st := ⟨if st = 0 then .active else .unused, 0, 0, fun _ => false⟩
  atts _ := .init
  opened _ := false
  nattachments := 0

theorem fresh_start : fresh.Start :=
  ⟨rfl, rfl, rfl, rfl, rfl, fun _ h => if_neg h, fun _ => ⟨rfl, rfl⟩⟩

/-- A process has opened the system, and there is a station. -/
def ready : AttachmentTables :=
  setStation { fresh with opened := Function.update fresh.opened 0 true } 1
    fun _ => ⟨.idle, 0, 0, fun _ => false⟩

theorem ready_reach : (machine ⟨1, 1, 2⟩).Reach (Careful ⟨1, 1, 2⟩) ready :=
  .step (.createStation 1 0) (.step (.openSlot 0) (.start fresh_start) trivial rfl) trivial rfl

/-- A process dies in the first attach to a station, when the station has counted it already. -/
theorem dying_repaired_iff_example :
    ∃ t ∈ crashes ⟨1, 1, 2⟩ 0 ready (.attach 1), ¬ Repaired ⟨1, 1, 2⟩ 0 ready t := by
  have hs : ready.Consistent ⟨1, 1, 2⟩ :=
    (fresh_start.consistent.step (x := .openSlot 0) trivial rfl).step
      (x := .createStation 1 0) trivial rfl
  obtain ⟨t, ht, hnatts, hatt⟩ : ∃ t, (crashes ⟨1, 1, 2⟩ 0 ready (.attach 1))[13]? = some t ∧
      (t.stat 1).nattachments = 1 ∧ (t.stat 1).att = (ready.stat 1).att := ⟨_, rfl, rfl, rfl⟩
  have hmem := List.mem_of_getElem? ht
  have hothers : ¬ 0 < others ⟨1, 1, 2⟩ ready 0 1 := by decide
  refine ⟨t, hmem, fun hrep => ?_⟩
  have hharmless : AttachHarmless ⟨1, 1, 2⟩ 0 1 ready t :=
    (dying_repaired_iff (k := .attach 1) hs (by decide) trivial hmem).mp hrep
  rcases hharmless with h | h | h | h
  · cases h
  · rw [hnatts] at h
    cases h
  · exact hothers h.2
  · exact h.1 hatt

/-- **The tables are consistent** at all times of a run. -/
theorem attachment_tables_consistent (h : (machine c).Reach (Careful c) s) : s.Consistent c :=
  h.invariant (fun _ => Start.consistent) fun _ _ _ hs hcare hstep => hs.step hcare hstep


/-- A process dies when it has attached to a station. -/
theorem attachment_tables_consistent_example :
    ∃ s, (machine ⟨1, 1, 2⟩).Reach (Careful ⟨1, 1, 2⟩) s ∧ s.Consistent ⟨1, 1, 2⟩ ∧
      (s.stat 1).nattachments = 0 ∧ (s.stat 1).status = .idle := by
  have hattached := ready_reach.step (AttachmentAct.attach (some 0) 1) trivial rfl
  have hdead := hattached.step (AttachmentAct.die 0 none 0) trivial rfl
  exact ⟨_, hdead, attachment_tables_consistent hdead, by decide, by decide⟩

end AttachmentTables

/-! ## Calls as single steps -/

namespace FenceState

variable {c : TableSizes} {s t : FenceState} {p st a i : ℕ}

/-- The tables in the system of processes and monitor. -/
def tables (s : FenceState) : AttachmentTables where
  attach := s.attach
  stat := s.stat
  atts := s.atts
  opened i := decide ((s.mon.proc i).status = .opened)
  nattachments := s.nattachments

theorem tables_attachTo (hst : st < c.nstations) (h : s.attachTo c p st = some t) :
    final (AttachmentTables.etStationAttach c (some (s.me p)) st) s.tables = t.tables := by
  unfold attachTo at h
  dsimp only at h
  split at h
  · cases h
  case isFalse hstatus =>
  split at h
  · cases h
  case isFalse hlimit =>
  split at h
  · cases h
  case isFalse hfull =>
  obtain ⟨i, hfree, rfl⟩ := Option.map_eq_some_iff.mp h
  have hfree' : s.tables.freeEntry c = some i := hfree
  rw [AttachmentTables.final_etStationAttach (s := s.tables) hst hstatus hlimit hfull hfree']
  rfl

theorem tables_detachBy (ha : a < c.nattachments) (h : s.detachBy p a = some t) :
    final (AttachmentTables.etStationDetach c false (some (s.me p)) a) s.tables = t.tables := by
  obtain ⟨st, hstat, rfl⟩ := Option.map_eq_some_iff.mp h
  have hstat' : (s.tables.attach a).stat = some st := hstat
  unfold AttachmentTables.etStationDetach
  rw [final_bind, final_get, value_get, if_neg (not_le.mpr ha), hstat']
  dsimp only
  rw [final_bind, final_pure, if_neg Bool.false_ne_true, AttachmentTables.final_detachStores]
  rfl

theorem tables_fixAttachment (s : FenceState) (a : ℕ) :
    (s.fixAttachment c a).tables = s.tables.fixAttachment c a := by
  unfold fixAttachment AttachmentTables.fixAttachment
  by_cases h : s.Lost c a
  · have h' : s.tables.Lost c a := h
    rw [if_pos h, if_pos h']
    rfl
  · have h' : ¬ s.tables.Lost c a := h
    rw [if_neg h, if_neg h']

theorem tables_cleanupDetach (ha : a < c.nattachments) : (s.cleanupDetach a).tables =
    final (AttachmentTables.etStationDetach c true none a) s.tables := by
  rw [AttachmentTables.final_etStationDetach ha]
  unfold cleanupDetach
  have hsame : (s.tables.attach a).stat = (s.attach a).stat := rfl
  rw [hsame]
  cases (s.attach a).stat <;> rfl

/-- **The clean-up** of a slot is the repair of the tables. -/
theorem tables_cleanUp (s : FenceState) (i : ℕ) :
    (s.cleanUp c i).tables = s.tables.cleanUp c i := by
  have hmark : (s.markCleaned i).tables = s.tables := by
    unfold markCleaned
    split <;> rfl
  have hfix : ∀ s : FenceState, (s.fixAttachments c).tables = s.tables.etFixAttachments c := fun s =>
    (List.foldl_hom tables fun s a => (tables_fixAttachment s a).symm).symm
  have hdetach : ∀ s : FenceState, (s.detachAll c i).tables = s.tables.detachAll c i := by
    intro s
    unfold detachAll AttachmentTables.detachAll
    have hall : ∀ xs : List ℕ, (∀ a ∈ xs, a < c.nattachments) → ∀ s : FenceState,
        (xs.foldl (fun s a => if (s.atts i).att a then s.cleanupDetach a else s) s).tables =
          xs.foldl (fun s a => if (s.atts i).att a then
            final (AttachmentTables.etStationDetach c true none a) s else s) s.tables := by
      intro xs hlt
      induction xs with
      | nil => exact fun _ => rfl
      | cons a xs ih =>
          intro s
          rw [List.foldl_cons, List.foldl_cons, ih fun b hb => hlt b (List.mem_cons_of_mem a hb)]
          congr 1
          by_cases hmine : (s.atts i).att a = true
          · have hmine' : (s.tables.atts i).att a = true := hmine
            rw [if_pos hmine, if_pos hmine', tables_cleanupDetach (hlt a List.mem_cons_self)]
          · have hmine' : ¬ (s.tables.atts i).att a = true := hmine
            rw [if_neg hmine, if_neg hmine']
    exact hall _ (fun a ha => List.mem_range.mp ha) s
  have hinit : ∀ s : FenceState, (s.initSlot i).tables = s.tables.etInitProcess i := by
    intro s
    have hopened : (fun j => decide ((Function.update s.mon.proc i .init j).status = .opened)) =
        Function.update (fun j => decide ((s.mon.proc j).status = .opened)) i false := by
      funext j
      rcases eq_or_ne j i with rfl | hne
      · rw [Function.update_self, Function.update_self]
        rfl
      · rw [Function.update_of_ne hne, Function.update_of_ne hne]
    exact congrArg (AttachmentTables.mk s.attach s.stat (Function.update s.atts i .init) ·
      s.nattachments) hopened
  have hnatts : ∀ s : FenceState, (s.fixNatts c).tables = s.tables.etFixNatts c := by
    intro s
    have hatts : ∀ j, (if j < c.nprocesses ∧ (s.mon.proc j).status = .opened then
          (⟨countAtts c (s.atts j).att, (s.atts j).att⟩ : ProcAtts) else s.atts j) =
        if j < c.nprocesses ∧ decide ((s.mon.proc j).status = .opened) = true then
          ⟨countAtts c (s.atts j).att, (s.atts j).att⟩ else s.atts j := fun j =>
      if_congr (and_congr_right fun _ => decide_eq_true_iff.symm) rfl rfl
    exact congrArg (AttachmentTables.mk s.attach _ · _ _) (funext hatts)
  unfold cleanUp AttachmentTables.cleanUp
  rw [hnatts, hinit, hdetach, hfix, hmark]

end FenceState

end EventTransfer
