import EventTransfer.BlockingRead
import EventTransfer.Conductor

/-!
# Event calls and temporary buffers

The calls `et_event(s)_new`, `et_event(s)_get`, `et_event(s)_put` and `et_event(s)_dump` of a
local process, and what they do to the events, to the lists and to the buffers of temporary
events.  An event that is larger than the event size of the system gets a file of its own, which
is mapped into the process that holds the event; `sys->ntemps` counts these files.

**The lists** are their contents here.  That a reader hands out what `StationRead.handOut` says,
and a dump or a restore leaves what `Post.put` says, is proved of the routines store by store
(`StationRead.wp_program`, `Post.wp_ndump`, `Post.wp_restore`); for the output lists it is
`wp_stationNwrite`.

**The operating system** answers for each place of the array of events (`OsAnswers`).  Opening or
unlinking a file that is not there fails whatever the answer.

The calls begin behind the tests of the process's own id (`et_alive`, `closed`), which end a call
before it has looked at an event.  What a call counts (`events_make` and the like) and what it
logs is left out; and so is that `ET_ERROR_WAKEUP` becomes `ET_ERROR_DEAD` in a dead system.
-/

namespace EventTransfer

/-! ## The events of a system -/

/-- A list of a station. -/
inductive ListName
  | input (ps : ℕ)
  | output (ps : ℕ)
  deriving DecidableEq, Repr

/-- What `pdata` points to: the event's own data space, or a mapping of its temporary file. -/
inductive DataSpace
  | own
  | tempFile
  deriving DecidableEq, Repr

/-- An entry of `sys->attach`: whether it is in use, with the status `ET_ATT_ACTIVE` and a number
that is not −1; and its station, which stays there when the attachment is gone. -/
structure Attachment where
  active : Bool
  stat : Option ℕ
  deriving DecidableEq, Repr

/-- **The events of a system**, and the lists they are in. -/
structure EventSystem where
  owner : ℕ → ℤ
  hdr : ℕ → EventHeader
  pdata : ℕ → DataSpace
  /-- The temporary file of the event exists. -/
  file : ℕ → Bool
  /-- It is mapped into the process that holds the event. -/
  mapped : ℕ → Bool
  list : ListName → List ℕ
  lasthigh : ℕ → ℕ
  ntemps : ℤ
  stations : Stations
  attach : ℕ → Attachment
  nattachments : ℤ

/-- The part of `et_sys_config` that the event calls depend on. -/
structure EventConfig extends SysConfig where
  eventSize : ℕ
  ntemps : ℕ
  groupCount : ℕ
  deriving DecidableEq, Repr

/-- **The answers of the operating system** to a call, for each place of its array of events:
whether the file can be made, mapped, unmapped and unlinked; and the values of `sys->ntemps` that
the call finds when it tries again to make a temporary event.  Where these end it has waited for
half a minute in vain. -/
structure OsAnswers where
  create : ℕ → Bool
  attach : ℕ → Bool
  munmap : ℕ → Bool
  unlink : ℕ → Bool
  waits : ℕ → List ℤ

/-- An operating system in which nothing fails, and calls that nobody else is at work beside. -/
def OsAnswers.fine : OsAnswers :=
  ⟨fun _ => true, fun _ => true, fun _ => true, fun _ => true, fun _ => []⟩

/-- How a read ends that takes no event. -/
inductive NoEvent
  | busy
  | empty
  | wakeup
  | timeout
  | error
  deriving DecidableEq, Repr

/-- Its return code. -/
def NoEvent.ret : NoEvent → Ret
  | busy => .errorBusy
  | empty => .errorEmpty
  | wakeup => .errorWakeup
  | timeout => .errorTimeout
  | error => .error

/-- The end of a read that finds nothing to take: a sleeping one goes on until it is woken up. -/
def WaitMode.givesUp : WaitMode → NoEvent
  | .sleep => .wakeup
  | .timed => .timeout
  | .async => .empty

/-- **The arguments of a call that reads events**: the attachment, an array for the events that
is not null, the mode (`none` for a number that is no mode) and the time.  With them what the
read meets: the lengths of the list when it was scanned for events of a group in vain, and what
ends the read before it takes an event, if anything does. -/
structure ReadArgs where
  att : ℤ
  pe : Bool
  mode : Option WaitMode
  deltatime : Option TimeSpec
  scanned : List ℕ
  interrupt : Option NoEvent

/-- The checks of the arguments. -/
def ReadArgs.accepted (a : ReadArgs) : Bool :=
  0 ≤ a.att && a.pe && a.mode.isSome && (a.mode ≠ some .timed || acceptsDelta a.deltatime)

namespace EventSystem

variable (s : EventSystem)

/-! ### Stores -/

def setHdr (e : ℕ) (h : EventHeader) : EventSystem :=
  { s with hdr := Function.update s.hdr e h }

def setPdata (e : ℕ) (d : DataSpace) : EventSystem :=
  { s with pdata := Function.update s.pdata e d }

def setFile (e : ℕ) (b : Bool) : EventSystem := { s with file := Function.update s.file e b }

def setMapped (e : ℕ) (b : Bool) : EventSystem :=
  { s with mapped := Function.update s.mapped e b }

def setList (l : ListName) (xs : List ℕ) : EventSystem :=
  { s with list := Function.update s.list l xs }

/-- The events of `es` get the owner `a`. -/
def give (es : List ℕ) (a : ℤ) : EventSystem :=
  { s with owner := fun e => if e ∈ es then a else s.owner e }

/-- `pe->temp == ET_EVENT_TEMP`. -/
def isTemp (e : ℕ) : Bool := (s.hdr e).temp = .temp

/-- `sys->attach[att].stat`. -/
def statOf (att : ℤ) : ℕ := (s.attach att.toNat).stat.getD 0

/-! ### Reading a list -/

/-- **The events a read takes.** -/
def taken (a : ReadArgs) (r : StationRead) (ps : ℕ) : List ℕ :=
  if a.interrupt.isSome then [] else (r.handOut s.hdr (s.list (.input ps))).1

/-- `et_station_read`, `et_station_nread` and `et_station_nread_group`.  Only the last can end
with `ET_OK` and no events, in the mode that does not wait. -/
def stationRead (a : ReadArgs) (r : StationRead) (ps : ℕ) : Ret × List ℕ × EventSystem :=
  let out := r.handOut s.hdr (s.list (.input ps))
  let mode := a.mode.getD .async
  if r.num < 1 then (.ok, [], s)
  else if a.interrupt.isSome then ((a.interrupt.getD .error).ret, [], s)
  else if s.list (.input ps) = [] ∨ out.1 = [] ∧ mode ≠ .async then (mode.givesUp.ret, [], s)
  else (.ok, out.1, (s.setList (.input ps) out.2).give out.1 a.att)

/-! ### Writing a list -/

/-- `et_station_write` and `et_station_nwrite`. -/
def stationNwrite (cfg : EventConfig) (ps : ℕ) (pe : List ℕ) : Ret × EventSystem :=
  if pe = [] then (.ok, s)
  else if cfg.nevents - (s.list (.output ps)).length < pe.length then (.error, s)
  else
    let r := putEvents (isHigh s.hdr) (s.lasthigh ps, s.list (.output ps)) pe
    (.ok, { s.setList (.output ps) r.2 with
      lasthigh := Function.update s.lasthigh ps r.1 }.give pe etSys)

/-- `et_station_dump` and `et_station_ndump`. -/
def stationNdump (cfg : EventConfig) (pe : List ℕ) : Ret × EventSystem :=
  let r := (Post.ndump pe).put s.hdr cfg.nevents (s.list (.input 0))
  if pe = [] then (.ok, s)
  else if r.2 = false then (.error, s)
  else (.ok, (s.setList (.input 0) r.1).give pe etSys)

/-! ### Buffers -/

/-- **`et_event_make`**.  The count goes up before there is a buffer; `et_temp_create` first
unlinks an old file of the name. -/
def etEventMake (cfg : EventConfig) (create : Bool) (size e : ℕ) : Ret × EventSystem :=
  if cfg.ntemps ≤ s.ntemps then (.errorToomany, s)
  else
    let s := { s with ntemps := s.ntemps + 1 }
    if create = false then (.error, s.setFile e false)
    else
      (.ok, (((s.setHdr e { EventHeader.init with
          group := (s.hdr e).group, temp := .temp, length := size, memsize := size }).setPdata e
            .tempFile).setFile e true).setMapped e true)

/-- "`try_again`": a temporary buffer, as soon as there are not too many of them. -/
def tryMake (cfg : EventConfig) (create : Bool) (size e : ℕ) :
    List ℤ → EventSystem → Ret × EventSystem
  | [], s => s.etEventMake cfg create size e
  | n :: waits, s =>
      let r := s.etEventMake cfg create size e
      if r.1 = .errorToomany then tryMake cfg create size e waits { s with ntemps := n } else r

/-- The loop over the events, which are at the places from `i` on. -/
def makeAll (cfg : EventConfig) (os : OsAnswers) (size : ℕ) :
    ℕ → List ℕ → EventSystem → Ret × EventSystem
  | _, [], s => (.ok, s)
  | i, e :: pe, s =>
      let r := tryMake cfg (os.create i) size e (os.waits i) s
      if r.1 = .ok then makeAll cfg os size (i + 1) pe r.2 else r

/-- "Init & set data pointer to own data space". -/
def initOwn (cfg : EventConfig) (size e : ℕ) : EventSystem :=
  (s.setHdr e { EventHeader.init with
    group := (s.hdr e).group, length := size, memsize := cfg.eventSize }).setPdata e .own

/-- The events of a call that makes new ones get their buffers. -/
def makeBuffers (cfg : EventConfig) (os : OsAnswers) (size : ℕ) (pe : List ℕ) : Ret × EventSystem :=
  if cfg.eventSize < size then s.makeAll cfg os size 0 pe
  else (.ok, pe.foldl (fun s e => s.initOwn cfg size e) s)

/-- The events of a call that gets some: "if temp buffer, map it into this process' mem". -/
def attachAll (os : OsAnswers) : ℕ → List ℕ → EventSystem → Ret × EventSystem
  | _, [], s => (.ok, s)
  | i, e :: pe, s =>
      if s.isTemp e = false then attachAll os (i + 1) pe (s.setPdata e .own)
      else if (s.file e && os.attach i) = false then (.error, s)
      else attachAll os (i + 1) pe ((s.setPdata e .tempFile).setMapped e true)

/-- `et_temp_remove`, for the event at place `i`. -/
def tempRemove (os : OsAnswers) (i e : ℕ) : Ret × EventSystem :=
  if os.munmap i = false then (.error, s)
  else if (s.file e && os.unlink i) = false then (.error, s.setMapped e false)
  else (.ok, (s.setMapped e false).setFile e false)

/-- The loop of `et_events_dump` that removes the temporary buffers, and counts them. -/
def removeAll (os : OsAnswers) : ℕ → List ℕ → EventSystem → Ret × ℕ × EventSystem
  | _, [], s => (.ok, 0, s)
  | i, e :: pe, s =>
      if s.isTemp e = false then removeAll os (i + 1) pe s
      else
        let r := s.tempRemove os i e
        if r.1 ≠ .ok then (r.1, 0, r.2)
        else
          let q := removeAll os (i + 1) pe r.2
          (q.1, q.2.1 + 1, q.2.2)

/-! ## The calls -/

/-- The calls that make new events, behind the arguments that are not common to them. -/
def newCall (cfg : EventConfig) (os : OsAnswers) (a : ReadArgs) (r : StationRead) (size : ℕ) :
    Ret × EventSystem :=
  if a.accepted = false then (.error, s)
  else if (s.attach a.att.toNat).active = false then (.error, s)
  else
    let out := s.stationRead a r 0
    if out.1 ≠ .ok then (out.1, out.2.2) else out.2.2.makeBuffers cfg os size out.2.1

/-- `et_event_new`. -/
def etEventNew (cfg : EventConfig) (os : OsAnswers) (a : ReadArgs) (size : ℕ) :
    Ret × EventSystem :=
  s.newCall cfg os a .read size

/-- "If asking for temp events, don't ask for more than available". -/
def numAvailable (cfg : EventConfig) (size num : ℕ) : ℕ :=
  if cfg.eventSize < size ∧ cfg.ntemps < num then cfg.ntemps else num

/-- `et_events_new`. -/
def etEventsNew (cfg : EventConfig) (os : OsAnswers) (a : ReadArgs) (size : ℕ) (num : ℤ) :
    Ret × EventSystem :=
  if num = 0 then (.ok, s)
  else if num < 0 then (.error, s)
  else s.newCall cfg os a (.nread (numAvailable cfg size num.toNat)) size

/-- `et_events_new_group`; `et_event_new_group` calls it for one event.  Each scan of the list
cuts the number of events to its length. -/
def etEventsNewGroup (cfg : EventConfig) (os : OsAnswers) (a : ReadArgs) (size : ℕ)
    (num group : ℤ) : Ret × EventSystem :=
  if num = 0 then (.ok, s)
  else if num < 0 ∨ group < 1 then (.error, s)
  else if (cfg.groupCount : ℤ) < group then (.error, s)
  else
    s.newCall cfg os a
      (.nreadGroup (a.scanned.foldl min (numAvailable cfg size num.toNat)) group.toNat) size

/-- The calls that get events; not from GRAND_CENTRAL. -/
def getCall (os : OsAnswers) (a : ReadArgs) (r : StationRead) : Ret × EventSystem :=
  if a.accepted = false then (.error, s)
  else if (s.attach a.att.toNat).active = false then (.error, s)
  else if s.statOf a.att = 0 then (.error, s)
  else
    let out := s.stationRead a r (s.statOf a.att)
    if out.1 ≠ .ok then (out.1, out.2.2) else out.2.2.attachAll os 0 out.2.1

/-- `et_event_get`. -/
def etEventGet (os : OsAnswers) (a : ReadArgs) : Ret × EventSystem := s.getCall os a .read

/-- `et_events_get`. -/
def etEventsGet (os : OsAnswers) (a : ReadArgs) (num : ℤ) : Ret × EventSystem :=
  if num = 0 then (.ok, s)
  else if num < 0 then (.error, s)
  else s.getCall os a (.nread num.toNat)

/-- `pe->age`. -/
def setAge (e : ℕ) (age : Age) : EventSystem := s.setHdr e { s.hdr e with age := age }

/-- `et_event_put`; `none` is a null pointer. -/
def etEventPut (cfg : EventConfig) (os : OsAnswers) (att : ℤ) (pe : Option ℕ) :
    Ret × EventSystem :=
  match pe with
  | none => (.error, s)
  | some e =>
      if att < 0 then (.error, s)
      else if (s.hdr e).memsize < (s.hdr e).length then (.error, s)
      else if s.owner e ≠ att then (.error, s)
      else if (s.isTemp e && !os.munmap 0) = true then (.error, s)
      else
        let t := if s.isTemp e then s.setMapped e false else s
        let ageOrig := (t.hdr e).age
        let r := (t.setAge e .used).stationNwrite cfg (s.statOf att) [e]
        if r.1 ≠ .ok then (r.1, r.2.setAge e ageOrig) else r

/-- The age is kept in `modify`, "not used normally", while the events are written. -/
def saveAge (e : ℕ) : EventSystem :=
  s.setHdr e { s.hdr e with modify := some (s.hdr e).age, age := .used }

/-- It is put back, and `modify` cleared; zero as an age is `ET_EVENT_USED`. -/
def restoreAge (e : ℕ) : EventSystem :=
  s.setHdr e { s.hdr e with age := (s.hdr e).modify.getD .used, modify := none }

/-- The loop of `et_events_put` that unmaps the temporary buffers. -/
def unmapAll (os : OsAnswers) : ℕ → List ℕ → EventSystem → Ret × EventSystem
  | _, [], s => (.ok, s)
  | i, e :: pe, s =>
      if (s.isTemp e && !os.munmap i) = true then (.error, s)
      else unmapAll os (i + 1) pe ((if s.isTemp e then s.setMapped e false else s).saveAge e)

/-- `et_events_put`; `none` is a null pointer, or a negative number of events. -/
def etEventsPut (cfg : EventConfig) (os : OsAnswers) (att : ℤ) (pe : Option (List ℕ)) :
    Ret × EventSystem :=
  match pe with
  | none => (.error, s)
  | some pe =>
      if pe = [] then (.ok, s)
      else if att < 0 then (.error, s)
      else if ∃ e ∈ pe, (s.hdr e).memsize < (s.hdr e).length ∨ s.owner e ≠ att then (.error, s)
      else
        let r := s.unmapAll os 0 pe
        if r.1 ≠ .ok then r
        else
          let q := r.2.stationNwrite cfg (s.statOf att) pe
          if q.1 ≠ .ok then (q.1, pe.foldl restoreAge q.2) else q

/-- `et_event_dump`. -/
def etEventDump (cfg : EventConfig) (os : OsAnswers) (att : ℤ) (pe : Option ℕ) :
    Ret × EventSystem :=
  match pe with
  | none => (.error, s)
  | some e =>
      if att < 0 then (.error, s)
      else if s.owner e ≠ att then (.error, s)
      else
        let r := s.removeAll os 0 [e]
        if r.1 ≠ .ok then (r.1, r.2.2)
        else
          let q := r.2.2.stationNdump cfg [e]
          if q.1 ≠ .ok then (q.1, q.2.give [e] att)
          else (.ok, { q.2 with ntemps := q.2.ntemps - r.2.1 })

/-- `et_events_dump`. -/
def etEventsDump (cfg : EventConfig) (os : OsAnswers) (att : ℤ) (pe : Option (List ℕ)) :
    Ret × EventSystem :=
  match pe with
  | none => (.error, s)
  | some pe =>
      if pe = [] then (.ok, s)
      else if att < 0 then (.error, s)
      else if ∃ e ∈ pe, s.owner e ≠ att then (.error, s)
      else
        let r := s.removeAll os 0 pe
        if r.1 ≠ .ok then (r.1, r.2.2)
        else
          let q := r.2.2.stationNdump cfg pe
          if q.1 ≠ .ok then q else (.ok, { q.2 with ntemps := q.2.ntemps - r.2.1 })

end EventSystem

/-- **The event calls**, with their arguments. -/
inductive LocalCall
  | new (a : ReadArgs) (size : ℕ)
  | newMany (a : ReadArgs) (size : ℕ) (num : ℤ)
  | newGroup (a : ReadArgs) (size : ℕ) (num group : ℤ)
  | get (a : ReadArgs)
  | getMany (a : ReadArgs) (num : ℤ)
  | put (att : ℤ) (pe : Option ℕ)
  | putMany (att : ℤ) (pe : Option (List ℕ))
  | dump (att : ℤ) (pe : Option ℕ)
  | dumpMany (att : ℤ) (pe : Option (List ℕ))

namespace LocalCall

/-- The attachment of the call. -/
def att : LocalCall → ℤ
  | new a _ | newMany a _ _ | newGroup a _ _ _ | get a | getMany a _ => a.att
  | put att _ | putMany att _ | dump att _ | dumpMany att _ => att

/-- **The call is made.** -/
def perform (cfg : EventConfig) (os : OsAnswers) (s : EventSystem) : LocalCall → Ret × EventSystem
  | new a size => s.etEventNew cfg os a size
  | newMany a size num => s.etEventsNew cfg os a size num
  | newGroup a size num group => s.etEventsNewGroup cfg os a size num group
  | get a => s.etEventGet os a
  | getMany a num => s.etEventsGet os a num
  | put att pe => s.etEventPut cfg os att pe
  | putMany att pe => s.etEventsPut cfg os att pe
  | dump att pe => s.etEventDump cfg os att pe
  | dumpMany att pe => s.etEventsDump cfg os att pe

end LocalCall

/-! ## What the calls leave alone -/

namespace EventSystem

/-- **Nothing has changed but headers and buffers**, and the number of temporary events. -/
structure SameLists (s t : EventSystem) : Prop where
  owner : t.owner = s.owner
  list : t.list = s.list
  lasthigh : t.lasthigh = s.lasthigh
  stations : t.stations = s.stations
  attach : t.attach = s.attach
  nattachments : t.nattachments = s.nattachments

namespace SameLists

variable {s t u : EventSystem}

theorem refl (s : EventSystem) : SameLists s s := ⟨rfl, rfl, rfl, rfl, rfl, rfl⟩

theorem trans (h : SameLists s t) (h' : SameLists t u) : SameLists s u :=
  ⟨h'.owner.trans h.owner, h'.list.trans h.list, h'.lasthigh.trans h.lasthigh,
    h'.stations.trans h.stations, h'.attach.trans h.attach, h'.nattachments.trans h.nattachments⟩

/-- A loop over events. -/
theorem foldl {f : EventSystem → ℕ → EventSystem} (h : ∀ s e, SameLists s (f s e)) (s : EventSystem)
    (pe : List ℕ) : SameLists s (pe.foldl f s) := by
  induction pe generalizing s with
  | nil => exact refl s
  | cons e pe ih => exact (h s e).trans (ih (f s e))

end SameLists

variable {s : EventSystem} {cfg : EventConfig} {os : OsAnswers} {size i e : ℕ} {pe : List ℕ}

theorem etEventMake_same (create : Bool) : SameLists s (s.etEventMake cfg create size e).2 := by
  unfold etEventMake
  split
  · exact .refl s
  · cases create <;> exact ⟨rfl, rfl, rfl, rfl, rfl, rfl⟩

theorem tryMake_same (create : Bool) (waits : List ℤ) :
    SameLists s (tryMake cfg create size e waits s).2 := by
  induction waits generalizing s with
  | nil => exact etEventMake_same create
  | cons n waits ih =>
      have hwait : SameLists s { s with ntemps := n } := ⟨rfl, rfl, rfl, rfl, rfl, rfl⟩
      unfold tryMake
      dsimp only
      split
      · exact hwait.trans ih
      · exact etEventMake_same create

theorem makeAll_same : SameLists s (s.makeAll cfg os size i pe).2 := by
  induction pe generalizing s i with
  | nil => exact .refl s
  | cons e pe ih =>
      unfold makeAll
      dsimp only
      split
      · exact (tryMake_same _ _).trans ih
      · exact tryMake_same _ _

theorem makeBuffers_same : SameLists s (s.makeBuffers cfg os size pe).2 := by
  unfold makeBuffers
  split
  · exact makeAll_same
  · have hone : ∀ s e, SameLists s (s.initOwn cfg size e) := fun _ _ =>
      ⟨rfl, rfl, rfl, rfl, rfl, rfl⟩
    exact .foldl hone s pe

theorem attachAll_same : SameLists s (s.attachAll os i pe).2 := by
  induction pe generalizing s i with
  | nil => exact .refl s
  | cons e pe ih =>
      have hown : SameLists s (s.setPdata e .own) := ⟨rfl, rfl, rfl, rfl, rfl, rfl⟩
      have hmap : SameLists s ((s.setPdata e .tempFile).setMapped e true) :=
        ⟨rfl, rfl, rfl, rfl, rfl, rfl⟩
      unfold attachAll
      split
      · exact hown.trans ih
      · split
        · exact .refl s
        · exact hmap.trans ih

theorem unmap_same (s : EventSystem) (c : Bool) (e : ℕ) :
    SameLists s (if c then s.setMapped e false else s) := by
  cases c <;> exact ⟨rfl, rfl, rfl, rfl, rfl, rfl⟩

theorem setHdr_same (s : EventSystem) (e : ℕ) (h : EventHeader) : SameLists s (s.setHdr e h) :=
  ⟨rfl, rfl, rfl, rfl, rfl, rfl⟩

theorem unmapAll_same : SameLists s (s.unmapAll os i pe).2 := by
  induction pe generalizing s i with
  | nil => exact .refl s
  | cons e pe ih =>
      unfold unmapAll
      split
      · exact .refl s
      · exact ((unmap_same s (s.isTemp e) e).trans (setHdr_same ..)).trans ih

theorem tempRemove_same : SameLists s (s.tempRemove os i e).2 := by
  unfold tempRemove
  split
  · exact .refl s
  · split <;> exact ⟨rfl, rfl, rfl, rfl, rfl, rfl⟩

theorem removeAll_same : SameLists s (s.removeAll os i pe).2.2 := by
  induction pe generalizing s i with
  | nil => exact .refl s
  | cons e pe ih =>
      unfold removeAll
      split
      · exact ih
      · dsimp only
        split
        · exact tempRemove_same
        · exact tempRemove_same.trans ih

end EventSystem

end EventTransfer
