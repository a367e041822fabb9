import EventTransfer.Station

/-!
# The lists of stations

`station_insert`, `station_remove` and `station_find`: the routines that put a station
into the main list or into a group of parallel stations, take it out, and find it.

`station_insert` searches for the place before it changes any station.  The search is
`insertPlace`, the stores are `linkAt`.  Both of the source's search loops are one walk,
`findPlace`, along `next` and along `nextparallel`; the walks take a bound `fuel` on the
number of rounds, and `none` means that the bound was reached.
-/

namespace EventTransfer

open StoreProgram StoreProgram.Prog

/-- `ET_END`: the last place of a list. -/
def etEnd : ℤ := -1

/-- `ET_NEWHEAD`: a place in the main list, even beside a group one could join. -/
def etNewhead : ℤ := -2

/-! ## Searching -/

/-- Walk along `link` from `cur`, counting from `counter`, until the walk is at
`position` or at its end: the station reached, and the one after it. -/
def findPlace (link : ℕ → Option ℕ) (position : ℤ) : ℕ → ℤ → ℕ → Option (ℕ × Option ℕ)
  | 0, _, _ => none
  | fuel + 1, counter, cur =>
      match link cur with
      | none => some (cur, none)
      | some next =>
          if counter = position then some (cur, some next)
          else findPlace link position fuel (counter + 1) next

/-- A place for a station: behind the last station of the main list; in the main list
between two stations; in a group behind `parallelStation`; or none, the request being
refused. -/
inductive Place
  | atEnd (previous : ℕ)
  | between (previous next : ℕ)
  | inGroup (parallelStation : ℕ) (nextparallel : Option ℕ)
  | refused
  deriving DecidableEq, Repr

/-- The search of `station_insert`. -/
def insertPlace (fuel : ℕ) (s : Stations) (ps : ℕ) (position parallelposition : ℤ) :
    Option Place :=
  if s.nstations < 3 then some (.atEnd 0)
  else
    match findPlace s.next position fuel 1 0 with
    | none => none
    | some (previous, none) => some (.atEnd previous)
    | some (previous, some next) =>
        if s.isParallel ps ∧ s.isParallel next ∧ parallelposition ≠ etNewhead then
          if stationCompareParallel (s.config next) (s.config ps) = false then some .refused
          else if parallelposition = 0 then some .refused
          else
            (findPlace s.nextparallel parallelposition fuel 1 next).map fun p =>
              .inGroup p.1 p.2
        else some (.between previous next)

/-- The loop of `station_find` along a group: the station's place behind its head. -/
def findInGroup (s : Stations) (ps : ℕ) : ℕ → ℤ → ℕ → Option (Option ℤ)
  | 0, _, _ => none
  | fuel + 1, parallelposition, cur =>
      match s.nextparallel cur with
      | none => some none
      | some nextparallel =>
          if nextparallel = ps then some (some parallelposition)
          else findInGroup s ps fuel (parallelposition + 1) nextparallel

/-- The loop of `station_find` along the main list. -/
def findInMain (s : Stations) (ps : ℕ) (groupFuel : ℕ) : ℕ → ℤ → ℕ → Option (Option (ℤ × ℤ))
  | 0, _, _ => none
  | fuel + 1, position, cur =>
      match s.next cur with
      | none => some none
      | some next =>
          if next = ps then some (some (position, 0))
          else if s.isParallel next then
            match findInGroup s ps groupFuel 1 next with
            | none => none
            | some (some parallelposition) => some (some (position, parallelposition))
            | some none => findInMain s ps groupFuel fuel (position + 1) next
          else findInMain s ps groupFuel fuel (position + 1) next

/-- `station_find`: the places of a station in the main list and in its group, or
`some none` if it is in no list. -/
def stationFind (fuel : ℕ) (s : Stations) (ps : ℕ) : Option (Option (ℤ × ℤ)) :=
  if ps = 0 then some (some (0, 0))
  else if s.nstations < 2 then some none
  else findInMain s ps fuel fuel 1 0

/-! ## Linking and unlinking -/

/-- The stores of `station_insert`. -/
def linkAt (ps : ℕ) : Place → Prog Stations Unit
  | .atEnd previous => do
      store fun s => { s with prev := assign s.prev (some ps) (some previous) }
      store fun s => { s with statTail := some ps }
      store fun s => { s with next := assign s.next (some previous) (some ps) }
  | .between previous next => do
      store fun s => { s with next := assign s.next (some ps) (some next) }
      store fun s => { s with prev := assign s.prev (some ps) (some previous) }
      store fun s => { s with prev := assign s.prev (some next) (some ps) }
      store fun s => { s with next := assign s.next (some previous) (some ps) }
  | .inGroup parallelStation nextparallel => do
      store fun s => { s with nextparallel := assign s.nextparallel (some ps) nextparallel }
      store fun s =>
        { s with prevparallel := assign s.prevparallel (some ps) (some parallelStation) }
      when (nextparallel ≠ none) (store fun s =>
        { s with prevparallel := assign s.prevparallel nextparallel (some ps) })
      store fun s =>
        { s with nextparallel := assign s.nextparallel (some parallelStation) (some ps) }
  | .refused => pure ⟨⟩

/-- `station_insert`; the value is `none` if a search loop exceeds `fuel`. -/
def stationInsert (fuel ps : ℕ) (position parallelposition : ℤ) :
    Prog Stations (Option Ret) := do
  let s ← get
  match insertPlace fuel s ps position parallelposition with
  | none => pure none
  | some .refused => pure (some .error)
  | some place => do
      linkAt ps place
      pure (some .ok)

/-- The stores that take a station with no group behind it out of the main list.  The
source has them twice. -/
def unlinkMain (ps : ℕ) : Prog Stations Unit := do
  let s ← get
  if s.statTail = some ps then
    store fun t => { t with statTail := s.prev ps }
  else
    store fun t => { t with prev := assign t.prev (s.next ps) (s.prev ps) }
  store fun t => { t with next := assign t.next (s.prev ps) (s.next ps) }

/-- The stores that make the next station of a group take the place of its head in the
main list. -/
def unlinkHead (ps : ℕ) : Prog Stations Unit := do
  let s ← get
  store fun t => { t with prev := assign t.prev (s.nextparallel ps) (s.prev ps) }
  store fun t => { t with next := assign t.next (s.nextparallel ps) (s.next ps) }
  store fun t => { t with prevparallel := assign t.prevparallel (s.nextparallel ps) none }
  if s.statTail = some ps then
    store fun t => { t with statTail := s.nextparallel ps }
  else
    store fun t => { t with prev := assign t.prev (s.next ps) (s.nextparallel ps) }
  store fun t => { t with next := assign t.next (s.prev ps) (s.nextparallel ps) }

/-- The stores that take a station that is not the head out of its group. -/
def unlinkMember (ps : ℕ) : Prog Stations Unit := do
  let s ← get
  when (s.nextparallel ps ≠ none) (store fun t =>
    { t with prevparallel := assign t.prevparallel (s.nextparallel ps) (s.prevparallel ps) })
  store fun t =>
    { t with nextparallel := assign t.nextparallel (s.prevparallel ps) (s.nextparallel ps) }
  when (s.waslast ps = true) (store fun t =>
    { t with waslast := assign t.waslast (s.prevparallel ps) true })

/-- `station_remove`. -/
def stationRemove (ps : ℕ) : Prog Stations Unit := do
  let s ← get
  if s.isParallel ps then
    if s.prev ps ≠ none then
      if s.nextparallel ps = none then unlinkMain ps else unlinkHead ps
    else unlinkMember ps
  else unlinkMain ps

end EventTransfer
