import EventTransfer.JavaOwnership
import EventTransfer.JavaStationRun

/-!
# Removing a station of the Java system

`removeStation` takes a station out of the lists, sets `killConductor` and interrupts the thread
of its conductor.  The conductor waits for events in its output list, takes them all, and then
looks up its own place in the list of stations.  It looks at `killConductor` only after it has
waited.  An attachment that has detached still puts events into the output list of what was its
station.

The lists are changed while the transfer lock of the station is held, and the conductor holds it
from the moment it looks for its place until it is through with its batch: each is one step here.
A thread that waits may wake up at any time.

* `following_remaining` — a station that is not in the lists any more has no place, and
  `listIterator` throws.
* `removeStation_losesNothing` — events come into the lists of the other stations as long as
  nothing is on its way when the station is taken out, and nothing is put afterwards.
* `Lost.run` — what is left when the station is taken out stays lost.
-/

namespace EventTransfer

open StepRun

/-! ## The system -/

/-- **A station that is to be removed**, with the list of stations.  GRAND_CENTRAL is not in
question. -/
structure RemovalSetup where
  chain : JavaChain
  self : ℕ
  stationsMax : ℕ
  hdr : ℕ → EventHeader
  select : ℕ → ℕ → Bool
  self_mem : self ∈ chain.slots.flatMap JavaSlot.members

/-- The list of stations without it. -/
def RemovalSetup.remaining (setup : RemovalSetup) : JavaChain where
  slots := setup.chain.slots.flatMap (JavaSlot.without setup.self)
  nodup := by
    have hperm := members_flatMap_without setup.self_mem setup.chain.nodup
    exact (List.nodup_cons.mp (hperm.nodup_iff.mpr setup.chain.nodup)).2
  ne_zero := by
    intro h
    have hperm := members_flatMap_without setup.self_mem setup.chain.nodup
    exact setup.chain.ne_zero (hperm.subset (List.mem_cons_of_mem _ h))

/-- How far the conductor is in `run`.  `outOfStations` is the exception of `listIterator`, and
`failed` any other. -/
inductive JavaConductorPc
  | looking
  | waiting
  | taking
  | taken
  | returned
  | outOfStations
  | failed
  deriving DecidableEq, Repr

/-- The thread has ended. -/
def JavaConductorPc.ended : JavaConductorPc → Bool
  | returned | outOfStations | failed => true
  | _ => false

/-- **The state.**  `total` is how often each event is there at all: in the input list of a
station that remains, in the output list, or in the batch of the conductor. -/
structure Removal where
  removed : Bool
  killConductor : Bool
  stat : ℕ → JavaStation
  output : List ℕ
  lastHigh : ℕ
  getList : List ℕ
  conductor : JavaConductorPc
  total : ℕ → ℕ

namespace Removal

variable (setup : RemovalSetup) (s : Removal)

/-- The list of stations as it is now. -/
def chain : JavaChain := if s.removed then setup.remaining else setup.chain

/-- **A step of `run`** in the thread of the station. -/
def conductorStep : Removal :=
  match s.conductor with
  | .looking => { s with conductor := if s.output.length < 1 then .waiting else .taking }
  | .waiting => { s with conductor := if s.killConductor then .returned else .looking }
  | .taking => { s with getList := s.getList ++ s.output, output := [], conductor := .taken }
  | .taken =>
      match (s.chain setup).following setup.self with
      | none => { s with conductor := .outOfStations }
      | some slots =>
          match conduct setup.hdr setup.select setup.stationsMax slots s.stat s.getList with
          | none => { s with conductor := .failed }
          | some stat => { s with stat := stat, getList := [], conductor := .looking }
  | .returned | .outOfStations | .failed => s

/-- `putEvents` of an attachment that was attached to the station. -/
def put (evs : List ℕ) : Removal :=
  let r := putLoop setup.hdr (if s.output = [] then 0 else s.lastHigh) s.output evs
  { s with output := r.2.1, lastHigh := r.1, total := fun e => s.total e + evs.count e }

end Removal

/-- The steps. -/
inductive RemovalAct
  | conductor
  | removeStationFromList
  | killConductor
  | put (evs : List ℕ)
  deriving DecidableEq, Repr

/-- One step.  `removeStation` goes on when the station is out of the lists. -/
def Removal.step (setup : RemovalSetup) (s : Removal) : RemovalAct → Option Removal
  | .conductor => some (s.conductorStep setup)
  | .removeStationFromList => if s.removed then none else some { s with removed := true }
  | .killConductor => if s.removed then some { s with killConductor := true } else none
  | .put evs => some (s.put setup evs)

/-- How often an event is in the input lists of the stations that remain. -/
def Removal.listed (setup : RemovalSetup) (s : Removal) (e : ℕ) : ℕ :=
  ∑ t ∈ setup.remaining.ids, (s.stat t).input.count e

/-- Nobody is attached to the station, and its conductor is at work. -/
structure Removal.Start (setup : RemovalSetup) (s : Removal) : Prop where
  removed : s.removed = false
  killConductor : s.killConductor = false
  lastHigh : s.output = [] ∨ s.lastHigh ≤ s.output.length
  running : s.conductor.ended = false
  taking : s.conductor = .taking → s.output ≠ []
  taken : s.conductor = .taken ↔ s.getList ≠ []
  total : ∀ e, s.listed setup e + s.output.count e + s.getList.count e = s.total e

/-- **`removeStation`, the conductor and the attachments in any order.** -/
def stationRemoval (setup : RemovalSetup) : Machine Removal RemovalAct :=
  .ofStep (Removal.Start setup) fun s a => s.step setup a

/-! ## What should hold -/

/-- **Nothing is lost.**  The conductor does not ask for a place that does not exist; when its
thread has ended, each event is in the lists of the other stations as often as it is there at
all; and when it is to be killed, the thread ends. -/
structure NothingLost (setup : RemovalSetup) (s : Removal) : Prop where
  inBounds : s.conductor ≠ .outOfStations
  delivered : s.conductor.ended → ∀ e, s.listed setup e = s.total e
  ends : s.killConductor → ((Removal.conductorStep setup)^[6] s).conductor.ended

/-- **The condition on a step.**  Nothing is on its way when the station is taken out of the
lists, and nothing is put into its output list afterwards.  The equal-cue groups that the
conductor comes to with events left have what the algorithm relies on. -/
def RemovalAct.Sound (setup : RemovalSetup) (s : Removal) : RemovalAct → Prop
  | .conductor => s.conductor = .taken → ∀ slots, (s.chain setup).following setup.self = some slots →
      Comes setup.hdr setup.select setup.stationsMax
        (fun slot stat getList => slot.Fits setup.stationsMax stat getList) slots s.stat s.getList
  | .removeStationFromList => s.output = [] ∧ s.getList = []
  | .killConductor => True
  | .put evs => s.removed → evs = []

/-! ## Places -/

section Places

variable (setup : RemovalSetup)

theorem RemovalSetup.self_ne_zero : setup.self ≠ 0 := by
  intro h
  exact setup.chain.ne_zero (h ▸ setup.self_mem)

/-- The station is not in the list without it. -/
theorem RemovalSetup.self_notMem :
    setup.self ∉ setup.remaining.slots.flatMap JavaSlot.members := by
  have hperm := members_flatMap_without setup.self_mem setup.chain.nodup
  exact (List.nodup_cons.mp (hperm.nodup_iff.mpr setup.chain.nodup)).1

/-- **A station that is out of the lists has no place**: neither `indexOf` nor the search for its
group finds it, and the position is that of the end of the list. -/
theorem following_remaining : setup.remaining.following setup.self = none := by
  have hnot : ∀ slot ∈ setup.remaining.slots, setup.self ∉ slot.members := by
    intro slot hslot hself
    exact setup.self_notMem (List.mem_flatMap.mpr ⟨slot, hslot, hself⟩)
  have hhead : ¬∃ slot ∈ setup.remaining.slots, slot.head = setup.self := by
    rintro ⟨slot, hslot, hself⟩
    exact hnot slot hslot (hself ▸ slot.head_mem)
  have hsearch : (setup.remaining.slots.findIdx fun slot => setup.self ∈ slot.members) =
      setup.remaining.slots.length := by
    apply List.findIdx_eq_length_of_false
    intro slot hslot
    exact decide_eq_false (hnot slot hslot)
  have hposition : setup.remaining.position setup.self = 1 + setup.remaining.slots.length := by
    rw [JavaChain.position, if_neg setup.self_ne_zero, if_neg hhead, hsearch]
  rw [JavaChain.following, hposition]
  exact if_neg (by omega)

/-- As long as it is in the lists, the places behind it are places of stations that remain. -/
theorem exists_following_self : ∃ slots, setup.chain.following setup.self = some slots ∧
    (slots.flatMap JavaSlot.members).Nodup ∧
    ∀ t ∈ slots.flatMap JavaSlot.members, t ∈ setup.remaining.ids := by
  obtain ⟨before, slot, after, hslots, hself, -, hothers⟩ :=
    exists_slot setup.self_mem setup.chain.nodup
  have hbehind : setup.chain.Behind setup.self after := .inr ⟨before, slot, hslots, hself⟩
  refine ⟨after, hbehind.following, ?_, ?_⟩
  · have hnodup := setup.chain.nodup
    rw [hslots, List.flatMap_append, List.flatMap_cons] at hnodup
    exact (List.nodup_append'.mp (List.nodup_append'.mp hnodup).2.1).2.1
  · intro t ht
    have hremaining : setup.remaining.slots = before ++ slot.without setup.self ++ after := by
      show setup.chain.slots.flatMap (JavaSlot.without setup.self) = _
      rw [hslots]
      exact flatMap_without fun slot' h hs' => hothers slot' h _ hs' hself
    apply JavaChain.mem_ids.mpr
    rw [hremaining, List.flatMap_append]
    exact .inr (List.mem_append_right _ ht)

/-- What `deleteStation` leaves are the places without the station. -/
theorem placed_remaining {sys : SystemCreate} {existing : Finset ℕ}
    (h : Placed sys (.serial 0 :: setup.chain.slots) existing) :
    Placed (sys.deleteStation setup.self) (.serial 0 :: setup.remaining.slots)
      (existing.erase setup.self) := by
  have hself : setup.self ∈ existing := by
    rw [← h.mem, List.flatMap_cons]
    exact List.mem_append_right _ setup.self_mem
  have hzero : JavaSlot.without setup.self (.serial 0) = [.serial 0] :=
    if_neg setup.self_ne_zero.symm
  have hdelete := h.delete hself
  rwa [List.flatMap_cons, hzero] at hdelete

end Places

/-! ## Runs -/

namespace Removal

variable {setup : RemovalSetup} {s : Removal}

/-- **The invariant.**  An event is in a list or in the batch.  When the station is out of the
lists, there is nothing left for its conductor to do. -/
structure Inv (setup : RemovalSetup) (s : Removal) : Prop where
  lastHigh : s.output = [] ∨ s.lastHigh ≤ s.output.length
  taking : s.conductor = .taking → s.output ≠ []
  taken : s.conductor = .taken ↔ s.getList ≠ []
  total : ∀ e, s.listed setup e + s.output.count e + s.getList.count e = s.total e
  removed : s.removed → s.output = [] ∧ s.getList = []
  ended : s.conductor.ended → s.conductor = .returned ∧ s.removed
  killConductor : s.killConductor → s.removed

theorem inv_of_start (h : s.Start setup) : s.Inv setup where
  lastHigh := h.lastHigh
  taking := h.taking
  taken := h.taken
  total := h.total
  removed hr := absurd hr (by simp [h.removed])
  ended he := absurd he (by simp [h.running])
  killConductor hk := absurd hk (by simp [h.killConductor])

theorem Inv.getList_nil (h : s.Inv setup) (hpc : s.conductor ≠ .taken) : s.getList = [] := by
  by_contra hne
  exact hpc (h.taken.mpr hne)

/-- Events that are put are in the output list. -/
theorem Inv.put (h : s.Inv setup) {evs : List ℕ} (hsound : s.removed → evs = []) :
    (s.put setup evs).Inv setup := by
  have hlast : (if s.output = [] then 0 else s.lastHigh) ≤ s.output.length := by
    split
    case isTrue => exact Nat.zero_le _
    case isFalse hne => exact h.lastHigh.resolve_left hne
  obtain ⟨hperm, hlength, -⟩ := putLoop_perm setup.hdr hlast evs
  refine ⟨.inr hlength, ?_, h.taken, ?_, ?_, h.ended, h.killConductor⟩
  · intro htaking hnone
    have hnil : s.output ++ evs = [] := List.perm_nil.mp (hnone ▸ hperm.symm)
    exact h.taking htaking (List.append_eq_nil_iff.mp hnil).1
  · intro e
    have htotal := h.total e
    have hcount := hperm.count_eq e
    rw [List.count_append] at hcount
    show s.listed setup e + (putLoop setup.hdr _ s.output evs).2.1.count e + s.getList.count e =
      s.total e + evs.count e
    omega
  · intro hr
    obtain ⟨houtput, hgetList⟩ := h.removed hr
    rw [houtput, hsound hr] at hperm
    refine ⟨?_, hgetList⟩
    show (putLoop setup.hdr _ s.output evs).2.1 = []
    rw [houtput, hsound hr]
    exact hperm.eq_nil

/-- A pass puts the batch into the lists of stations that remain. -/
theorem Inv.pass (h : s.Inv setup) (htaken : s.conductor = .taken)
    (hsound : RemovalAct.conductor.Sound setup s) : (s.conductorStep setup).Inv setup := by
  have hbatch : s.getList ≠ [] := h.taken.mp htaken
  have hlisted : ¬s.removed := fun hr => hbatch (h.removed hr).2
  have hchain : s.chain setup = setup.chain := if_neg hlisted
  obtain ⟨slots, hfollowing, hnodup, hmem⟩ := exists_following_self setup
  have hfits := hsound htaken slots (hchain ▸ hfollowing)
  obtain ⟨stat, hstat⟩ := conduct_of_fits hnodup hfits
  have hstep : s.conductorStep setup =
      { s with stat := stat, getList := [], conductor := .looking } := by
    unfold conductorStep
    simp only [htaken, hchain, hfollowing, hstat]
  rw [hstep]
  refine ⟨h.lastHigh, nofun, by simp, ?_, fun hr => absurd hr hlisted, nofun, h.killConductor⟩
  intro e
  have htotal := h.total e
  have hsum := conduct_sum hnodup hmem setup.remaining.zero_mem_ids hfits hstat e
  show (∑ t ∈ setup.remaining.ids, (stat t).input.count e) + s.output.count e +
    List.count e [] = s.total e
  unfold listed at htotal
  rw [List.count_nil]
  omega

/-- The conductor's steps. -/
theorem Inv.conductorStep (h : s.Inv setup) (hsound : RemovalAct.conductor.Sound setup s) :
    (s.conductorStep setup).Inv setup := by
  cases hpc : s.conductor with
  | taken => exact h.pass hpc hsound
  | returned | outOfStations | failed =>
      have hstep : s.conductorStep setup = s := by
        unfold Removal.conductorStep
        simp only [hpc]
      rwa [hstep]
  | looking =>
      have hnone := h.getList_nil (by simp [hpc])
      unfold Removal.conductorStep
      simp only [hpc]
      by_cases hempty : s.output.length < 1
      · rw [if_pos hempty]
        exact ⟨h.lastHigh, nofun, by simp [hnone], h.total, h.removed, nofun, h.killConductor⟩
      · rw [if_neg hempty]
        have hsome : s.output ≠ [] := by
          rintro hnil
          rw [hnil] at hempty
          exact hempty Nat.zero_lt_one
        exact ⟨h.lastHigh, fun _ => hsome, by simp [hnone], h.total, h.removed, nofun,
          h.killConductor⟩
  | waiting =>
      have hnone := h.getList_nil (by simp [hpc])
      unfold Removal.conductorStep
      simp only [hpc]
      by_cases hkill : s.killConductor
      · rw [if_pos hkill]
        exact ⟨h.lastHigh, nofun, by simp [hnone], h.total, h.removed,
          fun _ => ⟨rfl, h.killConductor hkill⟩, h.killConductor⟩
      · rw [if_neg hkill]
        exact ⟨h.lastHigh, nofun, by simp [hnone], h.total, h.removed, nofun, h.killConductor⟩
  | taking =>
      have hsome := h.taking hpc
      have hnone := h.getList_nil (by simp [hpc])
      unfold Removal.conductorStep
      simp only [hpc, hnone, List.nil_append]
      refine ⟨.inl rfl, nofun, by simp [hsome], ?_, fun hr => absurd (h.removed hr).1 hsome, nofun,
        h.killConductor⟩
      intro e
      have htotal := h.total e
      rw [hnone, List.count_nil, Nat.add_zero] at htotal
      show s.listed setup e + List.count e [] + s.output.count e = s.total e
      rw [List.count_nil]
      omega

/-- **Every step that meets the condition keeps the invariant.** -/
theorem Inv.step (h : s.Inv setup) {a : RemovalAct} {t : Removal} (hsound : a.Sound setup s)
    (hstep : s.step setup a = some t) : t.Inv setup := by
  cases a with
  | conductor =>
      obtain rfl := Option.some.inj hstep
      exact h.conductorStep hsound
  | put evs =>
      obtain rfl := Option.some.inj hstep
      exact h.put hsound
  | removeStationFromList =>
      obtain ⟨-, heq⟩ := Option.ite_none_left_eq_some.mp hstep
      obtain rfl := Option.some.inj heq
      exact ⟨h.lastHigh, h.taking, h.taken, h.total, fun _ => hsound,
        fun he => ⟨(h.ended he).1, rfl⟩, fun _ => rfl⟩
  | killConductor =>
      obtain ⟨hr, heq⟩ := Option.ite_none_right_eq_some.mp hstep
      obtain rfl := Option.some.inj heq
      exact ⟨h.lastHigh, h.taking, h.taken, h.total, h.removed, h.ended, fun _ => hr⟩

/-! ### The thread ends -/

theorem ended_conductorStep (h : s.conductor.ended) : s.conductorStep setup = s := by
  unfold conductorStep
  cases hpc : s.conductor with
  | returned | outOfStations | failed => rfl
  | looking | waiting | taking | taken => simp [hpc, JavaConductorPc.ended] at h

/-- A thread that has ended stays ended. -/
theorem ended_iterate {n m : ℕ} (hnm : n ≤ m)
    (h : ((conductorStep setup)^[n] s).conductor.ended) :
    ((conductorStep setup)^[m] s).conductor.ended := by
  induction m, hnm using Nat.le_induction with
  | base => exact h
  | succ m _ ih => rwa [Function.iterate_succ_apply', ended_conductorStep ih]

/-- It ends after one step more than it ends after from the next state. -/
theorem ended_succ (n : ℕ) {t : Removal} (hstep : s.conductorStep setup = t)
    (h : ((conductorStep setup)^[n] t).conductor.ended) :
    ((conductorStep setup)^[n + 1] s).conductor.ended := by
  rwa [Function.iterate_succ_apply, hstep]

theorem ends_of_waiting (hk : s.killConductor) (hpc : s.conductor = .waiting) :
    ((conductorStep setup)^[1] s).conductor.ended := by
  have hstep : s.conductorStep setup = { s with conductor := .returned } := by
    unfold conductorStep
    simp only [hpc, hk, if_true]
  exact ended_succ 0 hstep rfl

theorem ends_of_empty (hk : s.killConductor) (hpc : s.conductor = .looking)
    (houtput : s.output = []) : ((conductorStep setup)^[2] s).conductor.ended := by
  have hstep : s.conductorStep setup = { s with conductor := .waiting } := by
    unfold conductorStep
    simp only [hpc, houtput, List.length_nil, Nat.zero_lt_one, if_true]
  exact ended_succ 1 hstep (ends_of_waiting hk rfl)

/-- A pass ends the thread, or leads back to the output list. -/
theorem ends_of_pass (n : ℕ) (hpc : s.conductor = .taken)
    (hnext : ∀ stat, ((conductorStep setup)^[n]
      { s with stat := stat, getList := [], conductor := .looking }).conductor.ended) :
    ((conductorStep setup)^[n + 1] s).conductor.ended := by
  cases hfollowing : (s.chain setup).following setup.self with
  | none =>
      have hstep : s.conductorStep setup = { s with conductor := .outOfStations } := by
        unfold conductorStep
        simp only [hpc, hfollowing]
      exact ended_succ n hstep (ended_iterate (Nat.zero_le n) rfl)
  | some slots =>
      cases hstat : conduct setup.hdr setup.select setup.stationsMax slots s.stat s.getList with
      | none =>
          have hstep : s.conductorStep setup = { s with conductor := .failed } := by
            unfold conductorStep
            simp only [hpc, hfollowing, hstat]
          exact ended_succ n hstep (ended_iterate (Nat.zero_le n) rfl)
      | some stat =>
          have hstep : s.conductorStep setup =
              { s with stat := stat, getList := [], conductor := .looking } := by
            unfold conductorStep
            simp only [hpc, hfollowing, hstat]
          exact ended_succ n hstep (hnext stat)

theorem ends_of_taking (hk : s.killConductor) (hpc : s.conductor = .taking) :
    ((conductorStep setup)^[4] s).conductor.ended := by
  have hstep : s.conductorStep setup =
      { s with getList := s.getList ++ s.output, output := [], conductor := .taken } := by
    unfold conductorStep
    simp only [hpc]
  exact ended_succ 3 hstep (ends_of_pass 2 rfl fun stat => ends_of_empty hk rfl rfl)

theorem ends_of_looking (hk : s.killConductor) (hpc : s.conductor = .looking) :
    ((conductorStep setup)^[5] s).conductor.ended := by
  by_cases houtput : s.output = []
  · exact ended_iterate (by omega) (ends_of_empty hk hpc houtput)
  · have hlength : ¬s.output.length < 1 := by
      rw [Nat.lt_one_iff, List.length_eq_zero_iff]
      exact houtput
    have hstep : s.conductorStep setup = { s with conductor := .taking } := by
      unfold conductorStep
      simp only [hpc, hlength, if_false]
    exact ended_succ 4 hstep (ends_of_taking hk rfl)

/-- **A conductor that is to be killed ends**, whatever there is still to do. -/
theorem conductor_ends (hk : s.killConductor) :
    ((conductorStep setup)^[6] s).conductor.ended := by
  cases hpc : s.conductor with
  | looking => exact ended_iterate (by omega) (ends_of_looking hk hpc)
  | waiting => exact ended_iterate (by omega) (ends_of_waiting hk hpc)
  | taking => exact ended_iterate (by omega) (ends_of_taking hk hpc)
  | taken => exact ends_of_pass 5 hpc fun stat => ends_of_looking hk rfl
  | returned | outOfStations | failed =>
      refine ended_iterate (Nat.zero_le 6) ?_
      show s.conductor.ended
      rw [hpc]
      rfl

/-! ### The run -/

theorem Inv.nothingLost (h : s.Inv setup) : NothingLost setup s where
  inBounds hpc := by
    have hended := (h.ended (by rw [hpc]; rfl)).1
    rw [hpc] at hended
    cases hended
  delivered hended e := by
    obtain ⟨-, hr⟩ := h.ended hended
    obtain ⟨houtput, hgetList⟩ := h.removed hr
    have htotal := h.total e
    rwa [houtput, hgetList, List.count_nil, Nat.add_zero] at htotal
  ends hk := conductor_ends hk

end Removal

/-- **Removing a station loses no event** in a run in which nothing is on its way when the station
is taken out of the lists, and nothing is put into its output list afterwards. -/
theorem removeStation_losesNothing {setup : RemovalSetup} {s : Removal}
    (h : (stationRemoval setup).Reach (fun s a => a.Sound setup s) s) : NothingLost setup s := by
  have hinv : s.Inv setup :=
    h.invariant (fun _ hs => Removal.inv_of_start hs) fun _ _ _ hs hsound hstep =>
      hs.step hsound hstep
  exact hinv.nothingLost

/-- A station with an event in its output list, in front of GRAND_CENTRAL. -/
def lastStation : RemovalSetup where
  chain := ⟨[.serial 1], by decide, by decide⟩
  self := 1
  stationsMax := 10
  hdr _ := .init
  select _ _ := true
  self_mem := by decide

@[inherit_doc lastStation] def lastLoaded : Removal where
  removed := false
  killConductor := false
  stat _ := aliveStation .all
  output := [5]
  lastHigh := 0
  getList := []
  conductor := .looking
  total e := [5].count e

theorem lastLoaded_start : lastLoaded.Start lastStation := by
  refine ⟨rfl, rfl, .inr (Nat.zero_le _), rfl, nofun, by decide, fun e => ?_⟩
  have hlisted : lastLoaded.listed lastStation e = 0 := Finset.sum_eq_zero fun _ _ => rfl
  rw [hlisted, Nat.zero_add]
  rfl

/-- The event goes to GRAND_CENTRAL, and then the station is removed. -/
theorem removeStation_losesNothing_lastStation :
    let s := (Removal.conductorStep lastStation)^[4] lastLoaded
    NothingLost lastStation
      ({ s with removed := true, killConductor := true }.conductorStep lastStation) := by
  refine removeStation_losesNothing (.step .conductor (.step .killConductor
    (.step .removeStationFromList (.step .conductor (.step .conductor (.step .conductor
      (.step .conductor (.start lastLoaded_start) nofun rfl) nofun rfl) ?_ rfl) nofun rfl)
        ⟨rfl, rfl⟩ rfl) trivial rfl) nofun rfl)
  intro _ slots hfollowing
  obtain rfl : [] = slots := Option.some.inj hfollowing
  trivial

/-! ### What goes wrong -/

/-- The station is out of the lists, and an event is not in those of the others as often as it is
there. -/
def Removal.Lost (setup : RemovalSetup) (e : ℕ) (s : Removal) : Prop :=
  s.removed ∧ s.listed setup e < s.total e

/-- A conductor whose station is out of the lists puts nothing into a list. -/
theorem Removal.conductorStep_removed (setup : RemovalSetup) {s : Removal} (hr : s.removed) :
    (s.conductorStep setup).removed ∧ (s.conductorStep setup).stat = s.stat ∧
      (s.conductorStep setup).total = s.total := by
  have hchain : s.chain setup = setup.remaining := if_pos hr
  unfold conductorStep
  cases hpc : s.conductor with
  | taken =>
      simp only [hchain, following_remaining, and_true]
      exact hr
  | looking | waiting | taking | returned | outOfStations | failed => exact ⟨hr, rfl, rfl⟩

theorem Removal.Lost.step {setup : RemovalSetup} {s t : Removal} {e : ℕ} {a : RemovalAct}
    (h : s.Lost setup e) (hstep : s.step setup a = some t) : t.Lost setup e := by
  obtain ⟨hr, hlost⟩ := h
  cases a with
  | conductor =>
      obtain rfl := Option.some.inj hstep
      obtain ⟨htr, hstat, htotal⟩ := conductorStep_removed setup hr
      refine ⟨htr, ?_⟩
      unfold listed at hlost ⊢
      rwa [hstat, htotal]
  | removeStationFromList =>
      obtain ⟨hnot, -⟩ := Option.ite_none_left_eq_some.mp hstep
      exact absurd hr hnot
  | killConductor =>
      obtain ⟨-, heq⟩ := Option.ite_none_right_eq_some.mp hstep
      obtain rfl := Option.some.inj heq
      exact ⟨hr, hlost⟩
  | put evs =>
      obtain rfl := Option.some.inj hstep
      exact ⟨hr, Nat.lt_add_right _ hlost⟩

/-- **What a station has left when it is taken out of the lists stays lost**, whatever is done
then. -/
theorem Removal.Lost.run {setup : RemovalSetup} {s t : Removal} {e : ℕ} (hlost : s.Lost setup e)
    (h : (Machine.ofStep (· = s) fun s a => Removal.step setup s a).Reach (fun _ _ => True) t) :
    t.Lost setup e :=
  h.invariant (fun _ hs => hs ▸ hlost) fun _ _ _ hs _ hstep => hs.step hstep

/-- Something is on its way when the station is taken out of the lists. -/
theorem Removal.Inv.lost_of_early {setup : RemovalSetup} {s : Removal} (h : s.Inv setup)
    (hway : s.output ++ s.getList ≠ []) : ∃ e, { s with removed := true }.Lost setup e := by
  obtain ⟨e, he⟩ := List.exists_mem_of_ne_nil _ hway
  refine ⟨e, rfl, ?_⟩
  have htotal := h.total e
  have hcount := List.count_pos_iff.mpr he
  rw [List.count_append] at hcount
  show s.listed setup e < s.total e
  omega

/-- Something is put when the station is out of the lists. -/
theorem Removal.Inv.lost_of_put {setup : RemovalSetup} {s : Removal} (h : s.Inv setup)
    (hr : s.removed) {evs : List ℕ} (hevs : evs ≠ []) : ∃ e, (s.put setup evs).Lost setup e := by
  obtain ⟨e, he⟩ := List.exists_mem_of_ne_nil _ hevs
  refine ⟨e, hr, ?_⟩
  have htotal := h.total e
  have hcount := List.count_pos_iff.mpr he
  show s.listed setup e < s.total e + evs.count e
  omega

theorem Removal.Lost.not_nothingLost {setup : RemovalSetup} {s : Removal} {e : ℕ}
    (h : s.Lost setup e) (hended : s.conductor.ended) : ¬NothingLost setup s := by
  intro hnothing
  exact h.2.ne (hnothing.delivered hended e)

/-- **The conductor has taken a batch when its station is taken out of the lists.**  It asks for a
place behind the end of the list of stations, and its thread ends with the event. -/
theorem removeStation_losesBatch :
    ¬∀ s, (stationRemoval lastStation).Reach (fun _ _ => True) s → NothingLost lastStation s := by
  intro h
  have hrun : (stationRemoval lastStation).Reach (fun _ _ => True)
      ({ (Removal.conductorStep lastStation)^[2] lastLoaded with removed := true }.conductorStep
        lastStation) :=
    .step .conductor (.step .removeStationFromList (.step .conductor (.step .conductor
      (.start lastLoaded_start) trivial rfl) trivial rfl) trivial rfl) trivial rfl
  exact (h _ hrun).inBounds rfl

end EventTransfer
