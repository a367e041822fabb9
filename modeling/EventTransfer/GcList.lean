import EventTransfer.InputList

/-!
# Returning events to GRAND_CENTRAL

`et_station_dump` and `et_station_ndump` append the events of an attachment to
GRAND_CENTRAL's input list, whatever their priority.  They bypass the conductor, and
so "must take care of keeping statistics by changing pl->events_in".
`et_repair_gcinputlist` is what the ET system runs when the process dumping has died
with the list locked.
-/

namespace EventTransfer

open LinkedHeap StoreProgram StoreProgram.Prog

/-! ## The writers -/

/-- "Info for fixing broken GC input list". -/
def noteDump (num : ℕ) : Prog InMem PUnit := do
  let m ← get
  when (m.pl.cnt = 0) (store fun t => { t with pl.firstevent := none })
  store fun t => { t with fix.eventsin := t.pl.eventsIn }
  store fun t => { t with fix.cnt := t.pl.cnt }
  store fun t => { t with fix.num := num }
  store fun t => { t with fix.call := .dump }
  store fun t => { t with fix.start := t.fix.start + 1 }

/-- `et_station_dump`, from the lock of the list to its unlock. -/
def stationDump (nevents pe : ℕ) : Prog InMem Ret := do
  let m ← get
  if nevents ≤ m.pl.cnt then pure .error
  else do
    noteDump 1
    if m.pl.cnt = 0 then
      store fun t => { t with pl.firstevent := some pe }
    else
      store fun t => { t with ev := t.ev.setNext t.pl.lastevent (some pe) }
    store fun t => { t with pl.lastevent := some pe }
    store fun t => { t with ev := t.ev.setOwner pe etSys }
    store fun t => { t with pl.cnt := t.pl.cnt + 1 }
    store fun t => { t with pl.eventsIn := t.pl.eventsIn + 1 }
    store fun t => { t with fix.start := t.fix.start - 1 }
    pure .ok

/-- The loop of `et_station_ndump` over the events left to write. -/
def ndumpLoop : List ℕ → Option ℕ → Prog InMem PUnit
  | [], _ => pure ⟨⟩
  | pe :: rest, peLast => do
      store fun t => { t with ev := t.ev.setNext peLast (some pe) }
      store fun t => { t with pl.lastevent := some pe }
      store fun t => { t with ev := t.ev.setOwner pe etSys }
      store fun t => { t with pl.cnt := t.pl.cnt + 1 }
      ndumpLoop rest (some pe)

/-- `et_station_ndump`, from the lock of the list to its unlock; `pe` is the array of
events, `num` its length. -/
def stationNdump (nevents : ℕ) : List ℕ → Prog InMem Ret
  | [] => pure .ok
  | pe :: rest => do
      let m ← get
      if nevents - m.pl.cnt < rest.length + 1 then pure .error
      else do
        noteDump (rest.length + 1)
        if m.pl.cnt = 0 then do
          store fun t => { t with pl.firstevent := some pe }
          store fun t => { t with pl.lastevent := some pe }
          store fun t => { t with ev := t.ev.setOwner pe etSys }
          store fun t => { t with pl.cnt := t.pl.cnt + 1 }
          ndumpLoop rest (some pe)
        else
          ndumpLoop (pe :: rest) m.pl.lastevent
        store fun t => { t with fix.start := t.fix.start - 1 }
        pure .ok

/-! ## The repair -/

/-- The loop of `et_repair_gcinputlist`: at most `n` events from `pe` to `last` are
given back to the system and counted.  The return code is `ET_OK` if `last` was met;
`none` is a null pointer followed. -/
def repairGcinputLoop (last : Option ℕ) :
    ℕ → Option ℕ → InMem → ℕ → Option (Ret × InMem × ℕ)
  | 0, _, t, count => some (.error, t, count)
  | _ + 1, none, _, _ => none
  | n + 1, some pe, t, count =>
      let t := { t with ev := t.ev.setOwner pe etSys }
      if some pe = last then some (.ok, t, count + 1)
      else repairGcinputLoop last n (t.ev.next pe) t (count + 1)

/-- `et_repair_gcinputlist`. -/
def repairGcinputlist (t : InMem) : Option (Ret × InMem) :=
  if t.fix.start = 0 then some (.ok, t)
  else if t.pl.cnt = t.fix.cnt + t.fix.num then
    some (.ok, { t with fix.start := 0 })
  else if t.pl.cnt = 0 ∧ t.pl.firstevent = none then
    some (.ok, { t with fix.start := 0 })
  else
    -- the very first event written is also the last
    let t := if t.pl.cnt = 0 then { t with pl.lastevent := t.pl.firstevent } else t
    (repairGcinputLoop t.pl.lastevent (t.fix.cnt + t.fix.num) t.pl.firstevent t 0).map
      fun r => (r.1, { r.2.1 with
        pl.cnt := r.2.2
        pl.eventsIn :=
          if t.fix.eventsin = t.pl.eventsIn then t.pl.eventsIn + r.2.2 - t.fix.cnt
          else t.pl.eventsIn
        fix.start := 0 })

end EventTransfer
