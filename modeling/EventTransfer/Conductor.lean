import EventTransfer.JavaCues
import EventTransfer.StationLink

/-!
# The conductors of an ET system

A station's conductor (`et_conductor`) takes all events of its output list as one batch,
`allevents`, and goes along the main list of stations behind its own, until none is left of the
batch; what is left at the end goes to GRAND_CENTRAL.  A station, or the active members of a
group one after another, take events as they are configured; but in a round-robin or equal-cue
group all events that are left are dealt out among the active members.

The batch stays as it is during a pass.  `event_put` marks the events that have been put into a
station's list, and `events_left` counts the others.  Before anything has been put the code takes
short cuts, as long as `firstimethruloop` says that it is at the first station it comes to.  A
pass is written here as what it does with the batch at each stop, and as the calls of
`et_llist_write` it makes (`Write`).

What the arithmetic of the code does not promise: the equal-cue algorithm multiplies two `int`s,
and the language gives a product that `int` has no room for no value (`intMul`).
-/

namespace EventTransfer

open GapSort

/-- **A batch**: the array `allevents`, each event with its mark in `event_put`. -/
abbrev Batch := List (ℕ × Bool)

/-- The events that have not been put. -/
def unput (batch : Batch) : List ℕ := (batch.filter fun x => !x.2).map Prod.fst

/-- A call of `et_llist_write`: the station whose input list is written, and the events. -/
abbrev Write := ℕ × List ℕ

/-- What is written to a station. -/
def written (writes : List Write) (ps : ℕ) : List ℕ :=
  (writes.filter fun w => w.1 = ps).flatMap Prod.snd

/-! ## Groups that events are dealt out to -/

/-- The active members of a group, from `firstActive` on. -/
def Stations.actives (s : Stations) (members : List ℕ) : List ℕ :=
  members.filter fun ps => s.status ps = .active

/-- Stations get as many events as they are to get, in the order of the events; no write is
made for none. -/
def cutWrites : List (ℕ × ℕ) → List ℕ → List Write
  | [], _ => []
  | (ps, eventsToput) :: rest, events =>
      if eventsToput < 1 then cutWrites rest events
      else (ps, events.take eventsToput) :: cutWrites rest (events.drop eventsToput)

/-! ### Round-robin -/

/-- The search for the station that gets the first event: the active station behind the last
one marked `waslast`, and whether to start looking. -/
def Stations.lookForStart (s : Stations) : List ℕ → Option ℕ × Bool → Option ℕ × Bool
  | [], r => r
  | pstat :: rest, r =>
      let r := if s.status pstat = .active ∧ r.2 then (some pstat, false) else r
      s.lookForStart rest (if s.waslast pstat then (r.1, true) else r)

/-- `startStation`, which is `firstActive` when the search finds none. -/
def Stations.startStation (s : Stations) (members : List ℕ) : ℕ :=
  (s.lookForStart members (none, false)).1.getD ((s.actives members).headD 0)

/-- The active members in the order in which they are dealt to: from `startStation` to the end
of the group, and on from `firstActive`. -/
def Stations.dealOrder (s : Stations) (members : List ℕ) : List ℕ :=
  let start := s.startStation members
  s.actives (members.dropWhile (· ≠ start) ++ members.takeWhile (· ≠ start))

/-- **The loop that collects a station's events** from a batch of which some have been put:
`skip` says how many events of other stations come next, and `numOfEvents` how many are still to
be found.  The loop ends when `numOfEvents` has come down to `0`. -/
def collect (numActiveStations : ℕ) : ℕ → ℤ → Batch → List ℕ
  | _, _, [] => []
  | skip, numOfEvents, (event, put) :: rest =>
      if put then collect numActiveStations skip numOfEvents rest
      else if 0 < skip then collect numActiveStations (skip - 1) numOfEvents rest
      else if numOfEvents - 1 = 0 then [event]
      else event :: collect numActiveStations (numActiveStations - 1) (numOfEvents - 1) rest

/-- The events for number `i` of `n` stations, which is to get `numOfEvents`. -/
def roundEvents (firstimethruloop : Bool) (batch : Batch) (n numOfEvents i : ℕ) : List ℕ :=
  if firstimethruloop then
    (List.range numOfEvents).filterMap fun j => (batch.map Prod.fst)[i + j * n]?
  else collect n 0 numOfEvents (batch.drop i)

/-- **Round-robin**: the writes to the members, in the order in which they are dealt to. -/
def rrobinWrites (order : List ℕ) (firstimethruloop : Bool) (batch : Batch) (eventsLeft : ℕ) :
    List Write :=
  let n := order.length
  let numEvents := (List.range n).map (roundShare n eventsLeft)
  cutWrites (order.zip numEvents)
    ((List.range n).flatMap fun i =>
      roundEvents firstimethruloop batch n (roundShare n eventsLeft i) i)

/-- The flags after it: the member that got the last event is marked, and no other. -/
def Stations.markLast (s : Stations) (members order : List ℕ) (eventsLeft : ℕ) : Stations :=
  let last := order[lastEventIndex order.length eventsLeft]?
  { s with waslast := fun ps => if ps ∈ members then last = some ps else s.waslast ps }

/-! ### Equal-cue -/

/-- The product of two `int`s that are not negative. -/
def intMul (a b : ℕ) : Option ℕ := if a * b ≤ intMax then some (a * b) else none

/-- How many of the lowest cues have `min` events, with those they are to get. -/
def stationsWithSameCue (sorted : ℕ → ℕ × ℕ) (numEvents : ℕ → ℕ) (n min : ℕ) : ℕ :=
  ((List.range' 1 n).takeWhile fun i => min = (sorted i).1 + numEvents ((sorted i).2 - 1)).length

/-- `numEvents[place[i] - 1] += e` for the first `k` of the sorted cues. -/
def addFirst (sorted : ℕ → ℕ × ℕ) (e : ℕ → ℕ) : ℕ → (ℕ → ℕ) → (ℕ → ℕ)
  | 0, numEvents => numEvents
  | k + 1, numEvents =>
      let f := addFirst sorted e k numEvents
      let p := (sorted (k + 1)).2 - 1
      Function.update f p (f p + e (k + 1))

/-- What is left is spread over the `k` lowest cues. -/
def spread (sorted : ℕ → ℕ × ℕ) (k eventsToput : ℕ) (numEvents : ℕ → ℕ) : ℕ → ℕ :=
  addFirst sorted (fun i => eventsToput / k + if i ≤ eventsToput % k then 1 else 0) k numEvents

/-- **The loop that doles out events**: `sorted` has the lengths of the input lists in ascending
order, each with its `place` among the active stations, and `n` is their number.  The first
argument bounds the number of rounds. -/
def doleOut (sorted : ℕ → ℕ × ℕ) (n eventsLeft : ℕ) :
    ℕ → ℕ → ℕ → (ℕ → ℕ) → Option (ℕ → ℕ)
  | 0, _, eventsDoledOut, numEvents => if eventsDoledOut < eventsLeft then none else some numEvents
  | fuel + 1, min, eventsDoledOut, numEvents =>
      if eventsDoledOut < eventsLeft then
        let k := stationsWithSameCue sorted numEvents n min
        let nextHigherCue := (sorted (k + 1)).1
        let eventsToput := eventsLeft - eventsDoledOut
        if k = n then some (spread sorted k eventsToput numEvents)
        else
          (intMul (nextHigherCue - min) k).bind fun toNext =>
            if eventsToput < toNext then some (spread sorted k eventsToput numEvents)
            else
              doleOut sorted n eventsLeft fuel nextHigherCue (eventsDoledOut + toNext)
                (addFirst sorted (fun _ => nextHigherCue - min) k numEvents)
      else some numEvents

/-- `numEvents` of the equal-cue algorithm, where `inListCount` has the lengths of the input
lists of the active stations. -/
def numEventsOf (inListCount : List ℕ) (eventsLeft : ℕ) : Option (ℕ → ℕ) :=
  let sorted := gapSort Prod.fst inListCount.length fun i => (inListCount.getD (i - 1) 0, i)
  doleOut sorted inListCount.length eventsLeft eventsLeft (sorted 1).1 0 fun _ => 0

/-- The first events of a batch that have not been put and that satisfy `p`, up to a number of
them; they are put now. -/
def takeUnput (p : ℕ → Bool) : ℕ → Batch → List ℕ × Batch
  | 0, batch => ([], batch)
  | _ + 1, [] => ([], [])
  | j + 1, (event, put) :: rest =>
      if !put && p event then
        let r := takeUnput p j rest
        (event :: r.1, (event, true) :: r.2)
      else
        let r := takeUnput p (j + 1) rest
        (r.1, (event, put) :: r.2)

/-- Stations get as many events as they are to get of those that have not been put. -/
def unputWrites : List (ℕ × ℕ) → Batch → List Write
  | [], _ => []
  | (ps, eventsToput) :: rest, batch =>
      if eventsToput < 1 then unputWrites rest batch
      else
        let r := takeUnput (fun _ => true) eventsToput batch
        (ps, r.1) :: unputWrites rest r.2

/-- **Equal-cue**: the writes to the active members, which had `inListCount` events. -/
def equalcueWrites (stations inListCount : List ℕ) (firstimethruloop : Bool) (batch : Batch)
    (eventsLeft : ℕ) : Option (List Write) :=
  (numEventsOf inListCount eventsLeft).map fun numEvents =>
    let zs := stations.zip ((List.range stations.length).map numEvents)
    if firstimethruloop then cutWrites zs (batch.map Prod.fst) else unputWrites zs batch

/-! ## Stations that take events -/

/-- **What a conductor works on in a pass**: the table of stations, the contents of their input
lists (`list_in`), the `events_try` of these, the number of temporary events, and what it keeps
of the batch.  `events_try` is a `uint64_t`, and is taken for one that stays below `2 ^ 64`. -/
structure Pass where
  stations : Stations
  listIn : ℕ → List ℕ
  eventsTry : ℕ → ℕ
  ntemps : ℤ
  batch : Batch
  eventsLeft : ℕ
  firstimethruloop : Bool

/-- The events of the batch that have not been put and that satisfy `p`: of these every
`prescale`-th is put, counted by `events_try`. -/
def takePrescaled (p : ℕ → Bool) (prescale : ℕ) : ℕ → Batch → List ℕ × Batch × ℕ
  | eventsTry, [] => ([], [], eventsTry)
  | eventsTry, (event, put) :: rest =>
      if !put && p event then
        let r := takePrescaled p prescale (eventsTry + 1) rest
        if eventsTry % prescale = 0 then (event :: r.1, (event, true) :: r.2.1, r.2.2)
        else (r.1, (event, put) :: r.2.1, r.2.2)
      else
        let r := takePrescaled p prescale eventsTry rest
        (r.1, (event, put) :: r.2.1, r.2.2)

section Conductor

variable (hdr : ℕ → EventHeader) (nevents : ℕ) (select : ℕ → ℕ → Bool)

/-- `et_llist_write`; when the list has no room for all events the conductor's thread ends. -/
def Pass.write (w : Pass) (ps : ℕ) (pe : List ℕ) : Option Pass :=
  if pe.length ≤ nevents - (w.listIn ps).length then
    some { w with
      listIn := Function.update w.listIn ps (llistWrite (isHigh hdr) (w.listIn ps) pe) }
  else none

/-- The writes of a round-robin or equal-cue group, which count as events tried. -/
def Pass.deal : List Write → Pass → Option Pass
  | [], w => some w
  | (ps, pe) :: writes, w =>
      let w := { w with
        eventsTry := Function.update w.eventsTry ps (w.eventsTry ps + pe.length)
        eventsLeft := w.eventsLeft - pe.length }
      (w.write hdr nevents ps pe).bind (Pass.deal writes)

/-- A blocking station that takes all events: everything at once, or one by one. -/
def Pass.takeAll (w : Pass) (ps : ℕ) : List ℕ × Pass :=
  let prescale := (w.stations.config ps).prescale.toNat
  if w.firstimethruloop ∧ prescale = 1 then
    (w.batch.map Prod.fst, { w with
      eventsTry := Function.update w.eventsTry ps (w.eventsTry ps + w.batch.length)
      eventsLeft := 0 })
  else
    let r := takePrescaled (fun _ => true) prescale (w.eventsTry ps) w.batch
    (r.1, { w with
      batch := r.2.1
      eventsTry := Function.update w.eventsTry ps r.2.2
      eventsLeft := w.eventsLeft - r.1.length })

/-- A blocking station that takes the events that satisfy a condition. -/
def Pass.takeIf (w : Pass) (ps : ℕ) : List ℕ × Pass :=
  let prescale := (w.stations.config ps).prescale.toNat
  let r := takePrescaled (select ps) prescale (w.eventsTry ps) w.batch
  (r.1, { w with
    batch := r.2.1
    eventsTry := Function.update w.eventsTry ps r.2.2
    eventsLeft := w.eventsLeft - r.1.length })

/-- A nonblocking station: no more than its cue has room for. -/
def Pass.takeRoom (p : ℕ → Bool) (w : Pass) (ps : ℕ) : List ℕ × Pass :=
  let room := ((w.stations.config ps).cue - (w.listIn ps).length).toNat
  let r := takeUnput p room w.batch
  (r.1, { w with
    batch := r.2
    eventsLeft := w.eventsLeft - r.1.length })

/-- The events that go into one station. -/
def Pass.take (w : Pass) (ps : ℕ) : List ℕ × Pass :=
  match (w.stations.config ps).blockMode, (w.stations.config ps).selectMode with
  | .blocking, .all => w.takeAll ps
  | .nonblocking, .all => w.takeRoom (fun _ => true) ps
  | .blocking, _ => w.takeIf select ps
  | .nonblocking, _ => w.takeRoom (select ps) ps

/-- **One station** takes its events; `et_llist_write` is not called for none. -/
def Pass.serve (w : Pass) (ps : ℕ) : Option Pass :=
  let r := w.take select ps
  if r.1 = [] then some r.2 else r.2.write hdr nevents ps r.1

/-- The active members of a group one after another, as long as events are left. -/
def Pass.serveAll : List ℕ → Pass → Option Pass
  | [], w => some w
  | ps :: rest, w =>
      if w.eventsLeft = 0 then some w
      else
        (w.serve hdr nevents select ps).bind fun w =>
          Pass.serveAll rest { w with firstimethruloop := false }

/-! ## The pass -/

/-- **Dealing out** to a round-robin or equal-cue group, whose active members are `stations`. -/
def Pass.dealGroup (w : Pass) (members stations : List ℕ) (mode : SelectMode) : Option Pass :=
  if mode = .rrobin then
    let order := w.stations.dealOrder members
    let writes := rrobinWrites order w.firstimethruloop w.batch w.eventsLeft
    Pass.deal hdr nevents writes
      { w with stations := w.stations.markLast members order w.eventsLeft }
  else
    (equalcueWrites stations (stations.map fun ps => (w.listIn ps).length) w.firstimethruloop
      w.batch w.eventsLeft).bind fun writes => Pass.deal hdr nevents writes w

/-- **A stop** at a station of the main list, and at the other members of its group. -/
def Pass.stop (w : Pass) (g : Group) : Option Pass :=
  let members := g.1 :: g.2
  let stations := w.stations.actives members
  if stations = [] then some w
  else if w.stations.isParallel g.1 ∧ (w.stations.config g.1).isSharing then
    w.dealGroup hdr nevents members stations (w.stations.config g.1).selectMode
  else Pass.serveAll hdr nevents select stations w

/-- **The stop at GRAND_CENTRAL**, which takes whatever is left; `et_llist_write_gc` puts it at
the end. -/
def Pass.finish (w : Pass) : Option Pass :=
  let pe := if w.firstimethruloop then w.batch.map Prod.fst else unput w.batch
  if pe = [] then some w
  else if pe.length ≤ nevents - (w.listIn 0).length then
    some { w with
      listIn := Function.update w.listIn 0 (w.listIn 0 ++ pe)
      ntemps := w.ntemps - (pe.countP fun e => (hdr e).temp = .temp)
      eventsLeft := 0 }
  else none

/-- The stops at the stations behind the conductor's own, and at GRAND_CENTRAL. -/
def Pass.conduct : List Group → Pass → Option Pass
  | [], w => if w.eventsLeft = 0 then some w else w.finish hdr nevents
  | g :: gs, w =>
      if w.eventsLeft = 0 then some w
      else
        (w.stop hdr nevents select g).bind fun w =>
          Pass.conduct gs { w with firstimethruloop := false }

/-- The stations of the main list behind the conductor's own, which is in the group of the
first of them that is passed over. -/
def following (gs : List Group) (me : ℕ) : List Group :=
  (gs.dropWhile fun g => me ∉ g.1 :: g.2).tail

/-- **One pass of `et_conductor`** in the thread of station `me`, with the batch it has read. -/
def conductor (gs : List Group) (me : ℕ) (s : Stations) (listIn : ℕ → List ℕ)
    (eventsTry : ℕ → ℕ) (ntemps : ℤ) (allevents : List ℕ) : Option Pass :=
  Pass.conduct hdr nevents select (following gs me)
    ⟨s, listIn, eventsTry, ntemps, allevents.map (·, false), allevents.length, true⟩

end Conductor

/-! ## The batch -/

section Batch

variable {batch : Batch} {event : ℕ} {p : ℕ → Bool}

@[simp] theorem unput_nil : unput [] = [] := rfl

@[simp] theorem unput_cons_true (event : ℕ) (batch : Batch) :
    unput ((event, true) :: batch) = unput batch := rfl

@[simp] theorem unput_cons_false (event : ℕ) (batch : Batch) :
    unput ((event, false) :: batch) = event :: unput batch := rfl

theorem unput_append (xs ys : Batch) : unput (xs ++ ys) = unput xs ++ unput ys := by
  unfold unput
  rw [List.filter_append, List.map_append]

theorem unput_sublist (batch : Batch) : (unput batch).Sublist (batch.map Prod.fst) :=
  List.filter_sublist.map _

/-- Nothing has been put. -/
theorem unput_eq_map (h : ∀ x ∈ batch, x.2 = false) : unput batch = batch.map Prod.fst := by
  unfold unput
  rw [List.filter_eq_self.mpr fun x hx => by rw [h x hx]; rfl]

/-- A fresh batch. -/
theorem unput_map (xs : List ℕ) : unput (xs.map (·, false)) = xs := by
  rw [unput_eq_map fun x hx => by obtain ⟨e, -, rfl⟩ := List.mem_map.mp hx; rfl, List.map_map]
  exact List.map_id xs

/-- **Of the events that have not been put**, the first ones that satisfy `p` are taken. -/
theorem takeUnput_eq (p : ℕ → Bool) (j : ℕ) (batch : Batch) :
    (takeUnput p j batch).1 = (takeWhere p j (unput batch)).1 ∧
      unput (takeUnput p j batch).2 = (takeWhere p j (unput batch)).2 ∧
      (takeUnput p j batch).2.map Prod.fst = batch.map Prod.fst := by
  induction batch generalizing j with
  | nil =>
      cases j with
      | zero => exact ⟨rfl, rfl, rfl⟩
      | succ j => exact ⟨rfl, rfl, rfl⟩
  | cons x batch ih =>
      obtain ⟨event, put⟩ := x
      cases j with
      | zero => simp [takeUnput]
      | succ j =>
          obtain ⟨htaken, hleft, hall⟩ := ih j
          obtain ⟨htaken', hleft', hall'⟩ := ih (j + 1)
          unfold takeUnput
          cases put with
          | true => simp [htaken', hleft', hall']
          | false =>
              by_cases hp : p event
              · simp [hp, takeWhere, htaken, hleft, hall]
              · simp [hp, takeWhere, htaken', hleft', hall']

end Batch

/-! ## Writes -/

section Writes

variable {zs : List (ℕ × ℕ)}

@[simp] theorem written_nil (ps : ℕ) : written [] ps = [] := rfl

theorem written_cons (w : Write) (writes : List Write) (ps : ℕ) :
    written (w :: writes) ps = (if w.1 = ps then w.2 else []) ++ written writes ps := by
  unfold written
  rw [List.filter_cons]
  by_cases h : w.1 = ps
  · simp [h]
  · simp [h]

theorem written_of_notMem {writes : List Write} {ps : ℕ} (h : ps ∉ writes.map Prod.fst) :
    written writes ps = [] := by
  refine List.flatMap_eq_nil_iff.mpr fun w hw => ?_
  obtain ⟨hw, heq⟩ := List.mem_filter.mp hw
  exact absurd (List.mem_map.mpr ⟨w, hw, of_decide_eq_true heq⟩) h

theorem map_fst_cutWrites (zs : List (ℕ × ℕ)) (events : List ℕ) :
    ((cutWrites zs events).map Prod.fst).Sublist (zs.map Prod.fst) := by
  induction zs generalizing events with
  | nil => exact .refl _
  | cons z zs ih =>
      obtain ⟨ps, eventsToput⟩ := z
      unfold cutWrites
      split
      · exact (ih events).cons ps
      · exact (ih _).cons_cons ps

/-- **Each station gets its segment** of the events. -/
theorem written_cutWrites (hnodup : (zs.map Prod.fst).Nodup) (events : List ℕ) (ps : ℕ) :
    written (cutWrites zs events) ps = segment zs events ps := by
  induction zs generalizing events with
  | nil => rfl
  | cons z zs ih =>
      obtain ⟨r, n⟩ := z
      rw [List.map_cons] at hnodup
      obtain ⟨hr, hrest⟩ := List.nodup_cons.mp hnodup
      unfold cutWrites segment
      split
      case isTrue hn =>
        obtain rfl : n = 0 := by omega
        rw [ih hrest, List.drop_zero, List.take_zero]
        split
        case isTrue hps => exact segment_of_notMem (hps ▸ hr) events
        case isFalse => rfl
      case isFalse hn =>
        rw [written_cons, ih hrest]
        split
        case isTrue hps => rw [if_pos hps.symm, segment_of_notMem (hps ▸ hr), List.append_nil]
        case isFalse hps => rw [if_neg (Ne.symm hps), List.nil_append]

/-- To write out of the events that have not been put is to cut these up. -/
theorem unputWrites_eq (zs : List (ℕ × ℕ)) (batch : Batch) :
    unputWrites zs batch = cutWrites zs (unput batch) := by
  induction zs generalizing batch with
  | nil => rfl
  | cons z zs ih =>
      obtain ⟨ps, eventsToput⟩ := z
      obtain ⟨htaken, hleft, -⟩ := takeUnput_eq (fun _ => true) eventsToput batch
      rw [takeWhere_true] at htaken hleft
      unfold unputWrites cutWrites
      split
      · exact ih batch
      · dsimp only
        rw [ih, htaken, hleft]

end Writes

end EventTransfer
