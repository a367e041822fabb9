import EventTransfer.PriorityMerge
import EventTransfer.Station
import EventTransfer.Lib.GapSort
import EventTransfer.Lib.JavaInt
import EventTransfer.Lib.WaterFill

/-!
# The conductors of the Java system

A station's conductor takes all events of its output list as one batch and goes through the
stations behind its own, until none is left of the batch; what is left at the end goes to
GRAND_CENTRAL.  A place in the list of stations is a single station or a group of parallel
stations.  An active station takes events as it is configured.  So do the active members of a
group, one after another; but in a round-robin or equal-cue group all events that are left are
dealt out among them.

The conductor works on the batch in place (`getList`) and copies out what goes into a station
(`putList`).  Here a stop at one place takes the rest of the batch and returns what it leaves
of it.  An exception ends the conductor's thread, while it holds its transfer lock, and what is
left of the batch is lost: `none`.

A list has no more events than an `int` counts, and so its size is a natural number here.  But the
equal-cue algorithm multiplies the rise from one length to the next by the number of the lists to
be raised, and such a product may be any `int` (`wrap`).  `eventsTry` is a `long` in the code, and
a natural number here: it would take `2 ^ 63` events to tell the difference.

What the code does not promise: the arrays of the equal-cue algorithm have room for as many
stations as the system allows in its list of stations, and only the head of a group is in that
list; the product is compared with the number of events that are left (`JavaSlot.Fits`); and
nothing keeps a member of a round-robin or equal-cue group blocking, so that it may get more events
than its cue has room for (`JavaSlot.Blocking`).
-/

namespace EventTransfer

open GapSort JavaInt WaterFill

/-- `INT_MAX`, and `Integer.MAX_VALUE`. -/
def intMax : ℕ := 2147483647

/-- **A station**, as far as a conductor uses it.  `eventsTry` counts the events that were
tried for its input list. -/
structure JavaStation where
  active : Bool
  selectMode : SelectMode
  blockMode : BlockMode
  prescale : ℕ
  cue : ℕ
  wasLast : Bool
  input : List ℕ
  eventsTry : ℕ
  prescale_pos : 0 < prescale

/-- A place in the list of stations behind GRAND_CENTRAL's: a serial station, or the head of a
group of parallel stations, with the other members. -/
inductive JavaSlot
  | serial (s : ℕ)
  | group (head : ℕ) (rest : List ℕ)
  deriving DecidableEq, Repr

/-- The station that is in the list of stations itself. -/
def JavaSlot.head : JavaSlot → ℕ
  | serial s | group s _ => s

def JavaSlot.members : JavaSlot → List ℕ
  | serial s => [s]
  | group head rest => head :: rest

/-- **The list of stations** behind GRAND_CENTRAL, which has the id `0`. -/
structure JavaChain where
  slots : List JavaSlot
  nodup : (slots.flatMap JavaSlot.members).Nodup
  ne_zero : 0 ∉ slots.flatMap JavaSlot.members

/-! ## Where the pass begins -/

/-- The place of a station in the list of stations: `indexOf`, or the search for its group. -/
def JavaChain.position (chain : JavaChain) (self : ℕ) : ℕ :=
  if self = 0 then 0
  else if ∃ slot ∈ chain.slots, slot.head = self then
    1 + chain.slots.findIdx fun slot => slot.head = self
  else 1 + chain.slots.findIdx fun slot => self ∈ slot.members

/-- The places behind it; `listIterator` throws when it is not there. -/
def JavaChain.following (chain : JavaChain) (self : ℕ) : Option (List JavaSlot) :=
  if chain.position self ≤ chain.slots.length then some (chain.slots.drop (chain.position self))
  else none

section Conductor

variable (hdr : ℕ → EventHeader) (select : ℕ → ℕ → Bool)

/-! ## A station that takes events -/

/-- The events that a station selects, of which it takes every `prescale`-th: those it takes,
those it leaves, and the new `eventsTry`. -/
def prescaled (p : ℕ → Bool) (prescale : ℕ) : ℕ → List ℕ → List ℕ × List ℕ × ℕ
  | listTry, [] => ([], [], listTry)
  | listTry, ev :: events =>
      if p ev then
        let r := prescaled p prescale (listTry + 1) events
        if listTry % prescale = 0 then (ev :: r.1, r.2) else (r.1, ev :: r.2.1, r.2.2)
      else
        let r := prescaled p prescale listTry events
        (r.1, ev :: r.2.1, r.2.2)

/-- **What a station takes** of the batch, what it leaves, and the new `eventsTry`.  `p` is its
selection method, for all modes that are not `all`. -/
def JavaStation.choose (stat : JavaStation) (p : ℕ → Bool) (getList : List ℕ) :
    List ℕ × List ℕ × ℕ :=
  match stat.blockMode, stat.selectMode with
  | .blocking, .all =>
      let n := (stat.eventsTry + getList.length) / stat.prescale - stat.eventsTry / stat.prescale
      let n := if stat.prescale = 1 then getList.length else n
      (getList.take n, getList.drop n, stat.eventsTry + getList.length)
  | .nonblocking, .all =>
      if stat.input.length < stat.cue then
        let count := stat.cue - stat.input.length
        let n := if count > getList.length then getList.length else count
        (getList.take n, getList.drop n, stat.eventsTry)
      else ([], getList, stat.eventsTry)
  | .blocking, _ => prescaled p stat.prescale stat.eventsTry getList
  | .nonblocking, _ =>
      if stat.input.length < stat.cue then
        let r := takeWhere p (stat.cue - stat.input.length) getList
        (r.1, r.2, stat.eventsTry)
      else ([], getList, stat.eventsTry)

/-- Events go into the input list of a station with `putAll`. -/
def JavaStation.put (stat : JavaStation) (putList : List ℕ) : JavaStation :=
  { stat with input := llistWrite (isHigh hdr) stat.input putList }

/-- **The events that go into one station.** -/
def serve (s : ℕ) (stat : ℕ → JavaStation) (getList : List ℕ) : (ℕ → JavaStation) × List ℕ :=
  let r := (stat s).choose (select s) getList
  (Function.update stat s { (stat s).put hdr r.1 with eventsTry := r.2.2 }, r.2.1)

/-- The active ones of the stations, as long as events are left. -/
def serveAll : List ℕ → (ℕ → JavaStation) → List ℕ → (ℕ → JavaStation) × List ℕ
  | [], stat, getList => (stat, getList)
  | s :: rest, stat, getList =>
      if getList ≠ [] ∧ (stat s).active then
        let r := serve hdr select s stat getList
        serveAll rest r.1 r.2
      else serveAll rest stat getList

/-! ## Groups that events are dealt out to -/

/-- The active members of a group, from `firstActive` on. -/
def actives (stat : ℕ → JavaStation) (members : List ℕ) : List ℕ :=
  members.filter fun s => (stat s).active

/-- Stations get as many events as they are to get, in the order of the events. -/
def handOut : List (ℕ × ℕ) → List ℕ → (ℕ → JavaStation) → (ℕ → JavaStation)
  | [], _, stat => stat
  | (s, eventsToPut) :: rest, events, stat =>
      if eventsToPut < 1 then handOut rest events stat
      else
        handOut rest (events.drop eventsToPut) (Function.update stat s
          { (stat s).put hdr (events.take eventsToPut) with
            eventsTry := (stat s).eventsTry + eventsToPut })

/-- The first active station behind the last one that was marked `wasLast`, if there is one:
the station found so far, and whether to start looking. -/
def findStart (stat : ℕ → JavaStation) : List ℕ → Option ℕ × Bool → Option ℕ × Bool
  | [], r => r
  | s :: rest, r =>
      let r := if (stat s).active ∧ r.2 then (some s, false) else r
      findStart stat rest (if (stat s).wasLast then (r.1, true) else r)

/-- The station that gets the first event. -/
def startStation (stat : ℕ → JavaStation) (members : List ℕ) : ℕ :=
  (findStart stat members (none, false)).1.getD ((actives stat members).headD 0)

/-- The active members in the order in which they are dealt to: from `startStation` to the end
of the group, and on from `firstActive`. -/
def dealOrder (stat : ℕ → JavaStation) (members : List ℕ) : List ℕ :=
  let start := startStation stat members
  actives stat (members.dropWhile (· ≠ start) ++ members.takeWhile (· ≠ start))

/-- `numEvents`: of `len` events, number `i` of `n` stations gets one in each round. -/
def roundShare (n len i : ℕ) : ℕ := len / n + if i < len % n then 1 else 0

/-- Events that go to one station are put together: for number `i` of `n` stations those from
index `i` on in steps of `n`. -/
def rearrange (n : ℕ) (getList : List ℕ) : List ℕ :=
  (List.range n).flatMap fun i =>
    (List.range (roundShare n getList.length i)).filterMap fun j => getList[i + j * n]?

/-- `lastEventIndex`: the number of the station that gets the last event. -/
def lastEventIndex (n len : ℕ) : ℕ := if len % n = 0 then n - 1 else len % n - 1

/-- **Round-robin.** -/
def dealRoundRobin (members : List ℕ) (stat : ℕ → JavaStation) (getList : List ℕ) :
    ℕ → JavaStation :=
  let order := dealOrder stat members
  let n := order.length
  let cleared := fun s => if s ∈ members then { stat s with wasLast := false } else stat s
  let given := handOut hdr
    (order.zip ((List.range n).map (roundShare n getList.length))) (rearrange n getList) cleared
  match order[lastEventIndex n getList.length]? with
  | none => given
  | some s => Function.update given s { given s with wasLast := true }

/-- How many of the lowest cues have `min` events, with those they are to get. -/
def sameCues (sorted : ℕ → ℕ × ℕ) (numEvents : ℕ → ℤ) (n : ℕ) (min : ℤ) : ℕ :=
  ((List.range' 1 n).takeWhile fun i =>
    min = wrap ((sorted i).1 + numEvents ((sorted i).2 - 1))).length

/-- `numEvents[place[i] - 1] += e` for the first `k` of the sorted cues. -/
def giveFirst (sorted : ℕ → ℕ × ℕ) (e : ℕ → ℤ) : ℕ → (ℕ → ℤ) → (ℕ → ℤ)
  | 0, numEvents => numEvents
  | k + 1, numEvents =>
      let f := giveFirst sorted e k numEvents
      let p := (sorted (k + 1)).2 - 1
      Function.update f p (wrap (f p + e (k + 1)))

/-- **The loop of the equal-cue algorithm**: `sorted` has the lengths of the input lists in
ascending order, each with its `place` among the active stations, and `n` is their number.
The first argument bounds the number of rounds. -/
def fillCues (sorted : ℕ → ℕ × ℕ) (n : ℕ) (eventsLeft : ℤ) :
    ℕ → ℤ → ℤ → (ℕ → ℤ) → Option (ℕ → ℤ)
  | 0, _, eventsDoledOut, numEvents => if eventsDoledOut < eventsLeft then none else some numEvents
  | fuel + 1, min, eventsDoledOut, numEvents =>
      if eventsDoledOut < eventsLeft then
        let k := sameCues sorted numEvents n min
        let nextHigherCue : ℤ := (sorted (k + 1)).1
        let eventsToPut := wrap (eventsLeft - eventsDoledOut)
        if k = n ∨ eventsToPut < wrap (wrap (nextHigherCue - min) * k) then
          some (giveFirst sorted
            (fun i => eventsToPut.tdiv k + if (i : ℤ) ≤ eventsToPut.tmod k then 1 else 0) k numEvents)
        else
          let eventsPerStation := wrap (nextHigherCue - min)
          fillCues sorted n eventsLeft fuel nextHigherCue
            (wrap (eventsDoledOut + wrap (eventsPerStation * k)))
            (giveFirst sorted (fun _ => eventsPerStation) k numEvents)
      else some numEvents

/-- `numEvents` of the equal-cue algorithm, for input lists with `counts` events.  After
every round at least one more of the cues is among the lowest. -/
def cueShares (counts : List ℕ) (eventsLeft : ℕ) : Option (ℕ → ℤ) :=
  let sorted := gapSort Prod.fst counts.length fun i => (counts.getD (i - 1) 0, i)
  fillCues sorted counts.length eventsLeft counts.length (sorted 1).1 0 fun _ => 0

/-- Stations get their events from `getList`; `subList` throws when it has not got as many. -/
def handOutCues : List (ℕ × ℤ) → List ℕ → (ℕ → JavaStation) → Option (ℕ → JavaStation)
  | [], _, stat => some stat
  | (s, eventsToPut) :: rest, events, stat =>
      if eventsToPut < 1 then handOutCues rest events stat
      else if events.length < eventsToPut then none
      else
        handOutCues rest (events.drop eventsToPut.toNat) (Function.update stat s
          { (stat s).put hdr (events.take eventsToPut.toNat) with
            eventsTry := (stat s).eventsTry + eventsToPut.toNat })

/-- **Equal-cue.**  The arrays have `stationsMax + 1` elements, and the first is not used. -/
def dealEqualCue (stationsMax : ℕ) (members : List ℕ) (stat : ℕ → JavaStation)
    (getList : List ℕ) : Option (ℕ → JavaStation) :=
  let stations := actives stat members
  if stationsMax < stations.length then none
  else
    (cueShares (stations.map fun s => (stat s).input.length) getList.length).bind fun numEvents =>
      handOutCues hdr (stations.zip ((List.range stations.length).map numEvents)) getList stat

/-! ## The pass -/

/-- **A stop at one place**, with events left: the stations afterwards, and what is left of the
batch. -/
def JavaSlot.stop (stationsMax : ℕ) (slot : JavaSlot) (stat : ℕ → JavaStation)
    (getList : List ℕ) : Option ((ℕ → JavaStation) × List ℕ) :=
  match slot with
  | .serial s => some (serveAll hdr select [s] stat getList)
  | .group head rest =>
      if actives stat (head :: rest) = [] then some (stat, getList)
      else
        match (stat head).selectMode with
        | .rrobin => some (dealRoundRobin hdr (head :: rest) stat getList, [])
        | .equalcue => (dealEqualCue hdr stationsMax (head :: rest) stat getList).map (·, [])
        | _ => some (serveAll hdr select (head :: rest) stat getList)

/-- The stops at the places behind the station, and at GRAND_CENTRAL, which is active. -/
def conduct (stationsMax : ℕ) :
    List JavaSlot → (ℕ → JavaStation) → List ℕ → Option (ℕ → JavaStation)
  | [], stat, getList =>
      some (Function.update stat 0 { stat 0 with input := (stat 0).input ++ getList })
  | slot :: rest, stat, getList =>
      if getList = [] then some stat
      else (slot.stop hdr select stationsMax stat getList).bind fun r => conduct stationsMax rest r.1 r.2

/-- **One pass of `run`** in the thread of station `self`, with the batch it has taken. -/
def JavaChain.run (chain : JavaChain) (stationsMax self : ℕ) (stat : ℕ → JavaStation)
    (getList : List ℕ) : Option (ℕ → JavaStation) :=
  (chain.following self).bind fun slots => conduct hdr select stationsMax slots stat getList

end Conductor

/-! ## What a pass is for -/

/-- Of the events in `xs`, those at the places `i`, `i + n`, `i + 2 * n` and so on. -/
def everyNth (n i : ℕ) (xs : List ℕ) : List ℕ :=
  ((List.range xs.length).filter fun k => k % n = i).filterMap fun k => xs[k]?

/-- **The order in which a round-robin group is dealt to**: the active members in turn,
beginning behind the one marked `wasLast`, where one member is, and with the first where none
is. -/
structure DealsInTurn (stat : ℕ → JavaStation) (members order : List ℕ) : Prop where
  rotated : order.IsRotated (actives stat members)
  behind : ∀ before s after, members = before ++ s :: after → (stat s).wasLast = true →
    (∀ r ∈ before ++ after, (stat r).wasLast = false) →
      order = actives stat (after ++ before ++ [s])
  first : (∀ s ∈ members, (stat s).wasLast = false) → order = actives stat members

/-- **The events that are left are dealt out one by one**, and the member that got the last one
is marked. -/
def DealtInTurn (stat stat' : ℕ → JavaStation) (members left : List ℕ) (given : ℕ → List ℕ) :
    Prop :=
  ∃ order, DealsInTurn stat members order ∧
    (∀ i s, order[i]? = some s → given s = everyNth order.length i left) ∧
    (left ≠ [] → ∀ s ∈ members,
      (stat' s).wasLast = true ↔ order[(left.length - 1) % order.length]? = some s)

/-- **The events that are left are shared out**, in their order, so that the input lists end up
as even as they can. -/
def DealtEvenly (stat : ℕ → JavaStation) (members left : List ℕ) (given : ℕ → List ℕ) : Prop :=
  let stations := actives stat members
  stations.flatMap given = left ∧
    WaterFilling stations.length (fun i => (stat (stations.getD (i - 1) 0)).input.length)
      (fun i => (given (stations.getD (i - 1) 0)).length) left.length

/-- The stations that may get events at the given places. -/
def targets (stat : ℕ → JavaStation) (slots : List JavaSlot) : List ℕ :=
  actives stat (slots.flatMap JavaSlot.members)

/-- **The events of a batch are distributed.**  `given` is what each station gets.  Every event
goes into one input list, of an active station or of GRAND_CENTRAL; a list keeps the order of
the events of each priority; a nonblocking station does not get more than its cue has room for;
and groups that deal have their events dealt out as they should, where what is `left` for the
group is all but what the stations before it get. -/
structure Distributes (hdr : ℕ → EventHeader) (slots : List JavaSlot) (stat stat' : ℕ → JavaStation)
    (batch : List ℕ) (given : ℕ → List ℕ) : Prop where
  perm : ((targets stat slots).flatMap given ++ given 0).Perm batch
  only : ∀ s, s ∉ targets stat slots → s ≠ 0 → given s = []
  sublist : ∀ s, (given s).Sublist batch
  input : ∀ s, s ≠ 0 → (stat' s).input = llistWrite (isHigh hdr) (stat s).input (given s)
  grandCentral : (stat' 0).input = (stat 0).input ++ given 0
  ordered : ∀ s, (s ≠ 0 → HighsFirst (isHigh hdr) (stat s).input) → ∀ b,
    (stat' s).input.filter (isHigh hdr · = b) =
      (stat s).input.filter (isHigh hdr · = b) ++ (given s).filter (isHigh hdr · = b)
  highsFirst : HighsFirst (isHigh hdr) batch → ∀ s, s ≠ 0 →
    HighsFirst (isHigh hdr) (stat s).input → HighsFirst (isHigh hdr) (stat' s).input
  cue : ∀ s, s ≠ 0 → (stat s).blockMode = .nonblocking → given s ≠ [] →
    (stat' s).input.length ≤ (stat s).cue
  roundRobin : ∀ before head rest after, slots = before ++ .group head rest :: after →
    (stat head).selectMode = .rrobin → actives stat (head :: rest) ≠ [] →
      ∃ left, left.Sublist batch ∧ ((targets stat before).flatMap given ++ left).Perm batch ∧
        DealtInTurn stat stat' (head :: rest) left given
  equalCue : ∀ before head rest after, slots = before ++ .group head rest :: after →
    (stat head).selectMode = .equalcue → actives stat (head :: rest) ≠ [] →
      ∃ left, left.Sublist batch ∧ ((targets stat before).flatMap given ++ left).Perm batch ∧
        DealtEvenly stat (head :: rest) left given

end EventTransfer
