import EventTransfer.Event
import EventTransfer.Fencing
import EventTransfer.Lib.StoreProgram

/-!
# The tables of attachments, store by store

An attachment is in three tables: the system's table of attachments, the array of its station, and
the array of its process, each with a count of its own.  `et_station_attach` and `et_station_detach`
change them one after the other, and the process can die between any two of these stores.  The heart
monitor repairs the tables then: it wipes out the attachments that no active station knows of
(`et_fix_attachments`), detaches those that are left in the array of the dead process, and counts
again (`et_fix_natts`).

* `AttachmentTables.etStationAttach`, `etStationDetach` — the two routines.
* `AttachmentTables.cleanUp` — the repair.
* `AttachmentTables.Consistent` — the three tables and all counts say the same.

The attachments of the ET server are in no array of a process.  The events of an attachment are left
out; so are the lists of stations, and the mutexes, which keep others out of the tables.
-/

namespace EventTransfer

open StoreProgram Prog FenceState

/-- `att[a]` of a station is set to `a`, or to `-1`. -/
def AttStation.setAtt (ps : AttStation) (a : ℕ) (b : Bool) : AttStation :=
  { ps with att := Function.update ps.att a b }

/-- The same for a process. -/
def ProcAtts.setAtt (r : ProcAtts) (a : ℕ) (b : Bool) : ProcAtts :=
  { r with att := Function.update r.att a b }

/-- The tables.  `opened` says which slots of processes are `ET_PROC_OPEN`. -/
structure AttachmentTables where
  attach : ℕ → AttachEntry
  stat : ℕ → AttStation
  atts : ℕ → ProcAtts
  opened : ℕ → Bool
  nattachments : ℤ

namespace AttachmentTables

/-! ## Stores -/

section Stores

variable (s : AttachmentTables)

def setEntry (a : ℕ) (f : AttachEntry → AttachEntry) : AttachmentTables :=
  { s with attach := Function.update s.attach a (f (s.attach a)) }

def setStation (st : ℕ) (f : AttStation → AttStation) : AttachmentTables :=
  { s with stat := Function.update s.stat st (f (s.stat st)) }

def setProc (p : ℕ) (f : ProcAtts → ProcAtts) : AttachmentTables :=
  { s with atts := Function.update s.atts p (f (s.atts p)) }

def addAttachments (d : ℤ) : AttachmentTables := { s with nattachments := s.nattachments + d }

/-- The first free entry of the table. -/
def freeEntry (c : TableSizes) : Option ℕ :=
  (List.range c.nattachments).find? fun a => (s.attach a).num = none

end Stores

/-! ## The two routines -/

/-- `et_init_attachment`. -/
def etInitAttachment (a : ℕ) : Prog AttachmentTables PUnit := do
  store (setEntry · a fun e => { e with num := none })
  store (setEntry · a fun e => { e with proc := none })
  store (setEntry · a fun e => { e with stat := none })
  store (setEntry · a fun e => { e with
    blocked := false, eventsPut := 0, eventsGet := 0, eventsDump := 0, eventsMake := 0 })
  store (setEntry · a fun e => { e with active := false })

/-- The stores of `et_station_attach`.  `proc` is `none` for the ET server. -/
def attachStores (proc : Option ℕ) (st a : ℕ) : Prog AttachmentTables PUnit := do
  store (addAttachments · 1)
  etInitAttachment a
  store (setEntry · a fun e => { e with num := some a })
  store (setEntry · a fun e => { e with proc := proc })
  store (setEntry · a fun e => { e with stat := some st })
  store (setEntry · a fun e => { e with active := true })
  match proc with
  | none => pure ⟨⟩
  | some p => do
      store (setProc · p fun r => { r with nattachments := r.nattachments + 1 })
      store (setProc · p fun r => r.setAtt a true)
  store (setStation · st fun ps => { ps with nattachments := ps.nattachments + 1 })
  store (setStation · st fun ps => ps.setAtt a true)
  store (setStation · st fun ps => { ps with status := .active })

/-- **`et_station_attach`**: the return code, and the attachment. -/
def etStationAttach (c : TableSizes) (proc : Option ℕ) (st : ℕ) :
    Prog AttachmentTables (Ret × Option ℕ) := do
  let s ← get
  let ps := s.stat st
  if c.nstations ≤ st then pure (.error, none)
  else if ps.status ≠ .active ∧ ps.status ≠ .idle then pure (.error, none)
  else if 0 < ps.userMode ∧ ps.userMode ≤ ps.nattachments then pure (.errorToomany, none)
  else if (c.nattachments : ℤ) ≤ s.nattachments then pure (.errorToomany, none)
  else
    match s.freeEntry c with
    | none => pure (.error, none)
    | some a => do
        attachStores proc st a
        pure (.ok, some a)

/-- The stores of `et_station_detach`.  "Set .num first so if we crash after this, the
et_fix_attachments routine will not falsely think that we crashed in et_station_attach."  A clean-up
leaves the array of the process alone. -/
def detachStores (proc : Option ℕ) (a st : ℕ) : Prog AttachmentTables PUnit := do
  store (setEntry · a fun e => { e with num := none })
  store (setEntry · a fun e => { e with active := false })
  store (addAttachments · (-1))
  let s ← get
  when ((s.stat st).nattachments = 1 ∧ st ≠ 0)
    (store (setStation · st fun ps => { ps with status := .idle }))
  store (setStation · st fun ps => { ps with nattachments := ps.nattachments - 1 })
  store (setStation · st fun ps => ps.setAtt a false)
  match proc with
  | none => pure ⟨⟩
  | some p => do
      store (setProc · p fun r => { r with nattachments := r.nattachments - 1 })
      store (setProc · p fun r => r.setAtt a false)

/-- **`et_station_detach`.** -/
def etStationDetach (c : TableSizes) (cleanup : Bool) (proc : Option ℕ) (a : ℕ) :
    Prog AttachmentTables Ret := do
  let s ← get
  if c.nattachments ≤ a then pure .error
  else
    match (s.attach a).stat with
    | none => pure .error
    | some st => do
        detachStores (if cleanup then none else proc) a st
        pure .ok

/-! ## The repair -/

section Repair

variable (c : TableSizes) (s : AttachmentTables)

/-- The attachment is in use, but no active station knows of it. -/
def Lost (a : ℕ) : Prop :=
  (s.attach a).num ≠ none ∧
    ∀ st < c.nstations, ¬ ((s.stat st).att a = true ∧ (s.stat st).status = .active)

instance (a : ℕ) : Decidable (s.Lost c a) := inferInstanceAs (Decidable (_ ∧ _))

/-- The body of the loop of `et_fix_attachments`. -/
def fixAttachment (a : ℕ) : AttachmentTables :=
  if s.Lost c a then
    { s with
      atts := fun i => if i < c.nprocesses then (s.atts i).setAtt a false else s.atts i
      attach := Function.update s.attach a .init
      nattachments := s.nattachments - 1 }
  else s

/-- `et_fix_attachments`. -/
def etFixAttachments : AttachmentTables :=
  (List.range c.nattachments).foldl (fun s a => s.fixAttachment c a) s

/-- The loop of the heart monitor over the array of the dead process. -/
def detachAll (p : ℕ) : AttachmentTables :=
  (List.range c.nattachments).foldl
    (fun s a => if (s.atts p).att a then final (etStationDetach c true none a) s else s) s

/-- `et_init_process`. -/
def etInitProcess (p : ℕ) : AttachmentTables :=
  { s with
    atts := Function.update s.atts p .init
    opened := Function.update s.opened p false }

/-- `et_fix_natts`. -/
def etFixNatts : AttachmentTables :=
  let stat := fun st =>
    if st < c.nstations ∧ (s.stat st).status = .active then
      { s.stat st with nattachments := countAtts c (s.stat st).att }
    else s.stat st
  { s with
    stat := stat
    nattachments := ((List.range c.nstations).map fun st =>
      if (s.stat st).status = .active then (stat st).nattachments else 0).sum
    atts := fun i =>
      if i < c.nprocesses ∧ s.opened i = true then ⟨countAtts c (s.atts i).att, (s.atts i).att⟩
      else s.atts i }

/-- **The clean-up** after the death of process `p`. -/
def cleanUp (p : ℕ) : AttachmentTables :=
  ((((s.etFixAttachments c).detachAll c p).etInitProcess p).etFixNatts c)

end Repair

/-! ## Consistency -/

/-- The attachment is in use. -/
def Used (s : AttachmentTables) (a : ℕ) : Prop := (s.attach a).num ≠ none

instance (s : AttachmentTables) (a : ℕ) : Decidable (s.Used a) := inferInstanceAs (Decidable (_ ≠ _))

/-- **The three tables and all counts say the same.** -/
structure Consistent (c : TableSizes) (s : AttachmentTables) : Prop where
  /-- The attachments in use. -/
  used : ∀ a, s.Used a → a < c.nattachments ∧ (s.attach a).num = some a ∧ (s.attach a).active = true ∧
    (∃ st < c.nstations, (s.attach a).stat = some st) ∧
    ∀ p, (s.attach a).proc = some p → p < c.nprocesses ∧ s.opened p = true
  free : ∀ a, ¬ s.Used a → (s.attach a).active = false
  stat : ∀ st < c.nstations, ∀ a,
    (s.stat st).att a = true ↔ s.Used a ∧ (s.attach a).stat = some st
  proc : ∀ p < c.nprocesses, ∀ a,
    (s.atts p).att a = true ↔ s.Used a ∧ (s.attach a).proc = some p
  statCount : ∀ st < c.nstations, (s.stat st).nattachments = countAtts c (s.stat st).att
  procCount : ∀ p < c.nprocesses, (s.atts p).nattachments = countAtts c (s.atts p).att
  count : s.nattachments = countAtts c fun a => decide (s.Used a)
  grandCentral : (s.stat 0).status = .active
  status : ∀ st < c.nstations, st ≠ 0 →
    ((s.stat st).status = .active ↔ 0 < (s.stat st).nattachments)
  limit : ∀ st < c.nstations, 0 < (s.stat st).userMode →
    (s.stat st).nattachments ≤ (s.stat st).userMode

end AttachmentTables

end EventTransfer
