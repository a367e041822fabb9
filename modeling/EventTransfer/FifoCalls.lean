import EventTransfer.BatchedWrites
import EventTransfer.Fifo

/-!
# What the calls and conductors of a FIFO do

In a FIFO all events are of low priority and none is temporary (`Plain`).  A read of some events
takes them from the front of the list then, a put adds them at its end, and the conductor of
GRAND_CENTRAL gives "Users" events from the front of its batch.

* `EventSystem.etEventsNew_cases`, `etEventsGet_cases`, `etEventsPut_cases` — a call that fails has
  done nothing.
* `EventSystem.pass_grandCentral` — "Users" gets whole entries.
* `EventSystem.getBufs_answers` — the buffers of an entry are found by their ids.
-/

namespace EventTransfer

open Places

theorem NoEvent.ret_ne_ok (x : NoEvent) : x.ret ≠ .ok := by
  cases x <;> decide

theorem error_ne_ok : Ret.error ≠ .ok := by decide

namespace EventSystem

variable {s t : EventSystem} {cfg : EventConfig} {os : OsAnswers} {a : ReadArgs} {pe bufs : List ℕ}
  {ps n size e i : ℕ} {att : ℤ} {ids : List ℤ}

/-! ## Calls on buffers -/

/-- All events are of low priority, and none is temporary. -/
def Plain (s : EventSystem) : Prop :=
  ∀ e, (s.hdr e).priority = .low ∧ (s.hdr e).temp = .normal

theorem Plain.setHdr {h : EventHeader} (hs : s.Plain) (hlow : h.priority = .low)
    (hnormal : h.temp = .normal) : (s.setHdr e h).Plain := by
  intro x
  unfold EventSystem.setHdr
  dsimp only
  rcases eq_or_ne x e with rfl | hx
  · rw [Function.update_self]
    exact ⟨hlow, hnormal⟩
  · rw [Function.update_of_ne hx]
    exact hs x

theorem Plain.isTemp (hs : s.Plain) (e : ℕ) : s.isTemp e = false :=
  decide_eq_false fun h => by
    rw [(hs e).2] at h
    cases h

theorem Plain.isHigh (hs : s.Plain) (e : ℕ) : isHigh s.hdr e = false :=
  decide_eq_false fun h => by
    rw [(hs e).1] at h
    cases h

theorem Plain.foldl {f : EventSystem → ℕ → EventSystem} (hf : ∀ s e, s.Plain → (f s e).Plain)
    (hs : s.Plain) (pe : List ℕ) : (pe.foldl f s).Plain := by
  induction pe generalizing s with
  | nil => exact hs
  | cons e pe ih => exact ih (hf s e hs)

theorem Plain.labelBufs (hs : s.Plain) (ids : List ℤ) (bufs : List ℕ) :
    (s.labelBufs ids bufs).Plain := by
  induction bufs generalizing s ids with
  | nil => cases ids <;> exact hs
  | cons e bufs ih =>
      cases ids with
      | nil =>
          refine ih (Plain.setHdr hs ?_ ?_) []
          · exact (hs e).1
          · exact (hs e).2
      | cons id ids =>
          refine ih (Plain.setHdr hs ?_ ?_) ids
          · exact (hs e).1
          · exact (hs e).2

theorem labelBufs_onlyHeaders (s : EventSystem) (ids : List ℤ) (bufs : List ℕ) :
    OnlyHeaders bufs s (s.labelBufs ids bufs) := by
  induction bufs generalizing s ids with
  | nil => cases ids <;> exact .refl [] s
  | cons e bufs ih =>
      cases ids with
      | nil =>
          exact (OnlyHeaders.setHdr s _ List.mem_cons_self).trans
            ((ih _ []).mono (List.subset_cons_self e bufs))
      | cons id ids =>
          exact (OnlyHeaders.setHdr s _ List.mem_cons_self).trans
            ((ih _ ids).mono (List.subset_cons_self e bufs))

/-- The events that a read of a number of events takes. -/
theorem taken_nread (s : EventSystem) (a : ReadArgs) (n ps : ℕ) :
    s.taken a (.nread n) ps = if a.interrupt.isSome then [] else (s.list (.input ps)).take n := by
  have hout : (StationRead.nread n).handOut s.hdr (s.list (.input ps)) =
      ((s.list (.input ps)).take (min n (s.list (.input ps)).length),
        (s.list (.input ps)).drop (min n (s.list (.input ps)).length)) := takeWhere_true _ _
  unfold taken
  rw [hout, ← List.take_eq_take_min]

/-- A read of at least one event that takes none has failed. -/
theorem stationRead_failed (hn : 1 ≤ n) (h : s.taken a (.nread n) ps = []) :
    (s.stationRead a (.nread n) ps).1 ≠ .ok := by
  rw [taken_nread] at h
  unfold stationRead
  dsimp only
  rw [show (StationRead.nread n).num = n from rfl, if_neg (not_lt.mpr hn)]
  split
  case isTrue hstop =>
    exact (a.interrupt.getD .error).ret_ne_ok
  case isFalse hgo =>
    rw [if_neg hgo, List.take_eq_nil_iff] at h
    rw [if_pos (.inl (h.resolve_left (Nat.ne_of_gt hn)))]
    exact ((a.mode.getD .async).givesUp).ret_ne_ok

/-- The lists after a read of a number of events. -/
theorem afterRead_list (h : s.taken a (.nread n) ps ≠ []) :
    s.taken a (.nread n) ps = (s.list (.input ps)).take n ∧
      (s.afterRead a (.nread n) ps).list =
        Function.update s.list (.input ps) ((s.list (.input ps)).drop n) := by
  have hout : (StationRead.nread n).handOut s.hdr (s.list (.input ps)) =
      ((s.list (.input ps)).take (min n (s.list (.input ps)).length),
        (s.list (.input ps)).drop (min n (s.list (.input ps)).length)) := takeWhere_true _ _
  have hdrop : (s.list (.input ps)).drop (min n (s.list (.input ps)).length) =
      (s.list (.input ps)).drop n := by
    rcases le_total n (s.list (.input ps)).length with hle | hle
    · rw [Nat.min_eq_left hle]
    · rw [Nat.min_eq_right hle, List.drop_length, List.drop_of_length_le hle]
  rw [taken_nread] at h ⊢
  split at h
  · exact absurd rfl h
  case isFalse hgo =>
    refine ⟨if_neg hgo, ?_⟩
    unfold afterRead setList give
    rw [hout, hdrop]

/-- **`et_events_new` for buffers of the events' own size.** -/
theorem etEventsNew_cases (hsize : size ≤ cfg.eventSize) (hn : 1 ≤ n) :
    ((s.etEventsNew cfg os a size n).1 ≠ .ok ∧ (s.etEventsNew cfg os a size n).2 = s) ∨
      (0 ≤ a.att ∧ (s.attach a.att.toNat).active = true ∧ s.taken a (.nread n) 0 ≠ [] ∧
        s.etEventsNew cfg os a size n = (.ok, (s.taken a (.nread n) 0).foldl
          (fun s e => s.initOwn cfg size e) (s.afterRead a (.nread n) 0))) := by
  have hnum : numAvailable cfg size n = n := if_neg fun h => absurd h.1 (not_lt.mpr hsize)
  have hpos : (0 : ℤ) < n := by exact_mod_cast hn
  unfold etEventsNew
  rw [if_neg (ne_of_gt hpos), if_neg (not_lt.mpr hpos.le), Int.toNat_natCast, hnum]
  unfold newCall
  cases haccepted : a.accepted with
  | false => exact .inl ⟨error_ne_ok, rfl⟩
  | true =>
      cases hactive : (s.attach a.att.toNat).active with
      | false => exact .inl ⟨error_ne_ok, rfl⟩
      | true =>
          simp only [reduceCtorEq, if_false]
          by_cases hnone : s.taken a (.nread n) 0 = []
          · have hfail := @stationRead_failed s a 0 n hn hnone
            rw [if_pos hfail]
            exact .inl ⟨hfail, by rw [stationRead_none hnone]⟩
          · rw [stationRead_some hnone, if_neg (not_not.mpr rfl)]
            refine .inr ⟨ReadArgs.att_nonneg haccepted, trivial, hnone, ?_⟩
            exact if_neg (not_lt.mpr hsize)

/-- Buffers that are not temporary need no mapping. -/
theorem attachAll_plain (hs : s.Plain) :
    (s.attachAll os i pe).1 = .ok ∧ (s.attachAll os i pe).2.hdr = s.hdr := by
  induction pe generalizing s i with
  | nil => exact ⟨rfl, rfl⟩
  | cons e pe ih =>
      unfold attachAll
      rw [if_pos (hs.isTemp e)]
      exact @ih (s.setPdata e .own) (i + 1) hs

/-- **`et_events_get`.** -/
theorem etEventsGet_cases (hs : s.Plain) (hn : 1 ≤ n) :
    ((s.etEventsGet os a n).1 ≠ .ok ∧ (s.etEventsGet os a n).2 = s) ∨
      (0 ≤ a.att ∧ (s.attach a.att.toNat).active = true ∧
        s.taken a (.nread n) (s.statOf a.att) ≠ [] ∧ (s.etEventsGet os a n).1 = .ok ∧
        (s.etEventsGet os a n).2 = ((s.afterRead a (.nread n) (s.statOf a.att)).attachAll os 0
          (s.taken a (.nread n) (s.statOf a.att))).2) := by
  have hpos : (0 : ℤ) < n := by exact_mod_cast hn
  unfold etEventsGet
  rw [if_neg (ne_of_gt hpos), if_neg (not_lt.mpr hpos.le), Int.toNat_natCast]
  unfold getCall
  cases haccepted : a.accepted with
  | false => exact .inl ⟨error_ne_ok, rfl⟩
  | true =>
      cases hactive : (s.attach a.att.toNat).active with
      | false => exact .inl ⟨error_ne_ok, rfl⟩
      | true =>
          simp only [reduceCtorEq, if_false]
          by_cases hstat : s.statOf a.att = 0
          · rw [if_pos hstat]
            exact .inl ⟨error_ne_ok, rfl⟩
          rw [if_neg hstat]
          by_cases hnone : s.taken a (.nread n) (s.statOf a.att) = []
          · have hfail := stationRead_failed hn hnone
            rw [if_pos hfail]
            exact .inl ⟨hfail, by rw [stationRead_none hnone]⟩
          · rw [stationRead_some hnone, if_neg (not_not.mpr rfl)]
            have hplain : (s.afterRead a (.nread n) (s.statOf a.att)).Plain := hs
            exact .inr ⟨ReadArgs.att_nonneg haccepted, trivial, hnone,
              (attachAll_plain hplain).1, rfl⟩

/-- What a header keeps when an event is put: all but its age. -/
def SameButAge (h k : EventHeader) : Prop :=
  k.length = h.length ∧ k.control = h.control ∧ k.priority = h.priority ∧ k.temp = h.temp

/-- Buffers that are not temporary need no unmapping. -/
theorem unmapAll_plain (hs : s.Plain) :
    (s.unmapAll os i pe).1 = .ok ∧ ∀ e, SameButAge (s.hdr e) ((s.unmapAll os i pe).2.hdr e) := by
  induction pe generalizing s i with
  | nil => exact ⟨rfl, fun _ => ⟨rfl, rfl, rfl, rfl⟩⟩
  | cons e pe ih =>
      have hplain : (s.saveAge e).Plain := hs.setHdr (hs e).1 (hs e).2
      have hsave : ∀ x, SameButAge (s.hdr x) ((s.saveAge e).hdr x) := by
        intro x
        unfold saveAge EventSystem.setHdr
        dsimp only
        rcases eq_or_ne x e with rfl | hx
        · rw [Function.update_self]
          exact ⟨rfl, rfl, rfl, rfl⟩
        · rw [Function.update_of_ne hx]
          exact ⟨rfl, rfl, rfl, rfl⟩
      obtain ⟨hok, hrest⟩ := @ih (s.saveAge e) (i + 1) hplain
      unfold unmapAll
      rw [hs.isTemp e]
      refine ⟨hok, fun x => ?_⟩
      obtain ⟨h1, h2, h3, h4⟩ := hrest x
      obtain ⟨k1, k2, k3, k4⟩ := hsave x
      exact ⟨h1.trans k1, h2.trans k2, h3.trans k3, h4.trans k4⟩

/-- Events of low priority go to the end of an output list. -/
theorem putEvents_low {high : ℕ → Bool} {xs : List ℕ} (hlow : ∀ e, high e = false) :
    putEvents high (0, xs) pe = (0, xs ++ pe) := by
  have hfirst : HighFirst high (0, xs) :=
    ⟨Nat.zero_le _, fun e he => absurd he (by simp), fun e _ => hlow e⟩
  have hnone : ∀ ys : List ℕ, ys.filter high = [] := fun ys => by simp [hlow]
  have hall : ∀ ys : List ℕ, (ys.filter fun e => !high e) = ys := fun ys => by simp [hlow]
  have hcount : pe.countP high = 0 := by simp [hlow]
  rw [hfirst.putEvents_eq, hnone, hnone, hall, hall, hcount]
  rfl

/-- What a put of buffers leaves as it is, and what it changes. -/
structure BuffersPut (s t : EventSystem) (ps : ℕ) (pe : List ℕ) : Prop where
  list : t.list = Function.update s.list (.output ps) (s.list (.output ps) ++ pe)
  owner : ∀ e, t.owner e = if e ∈ pe then etSys else s.owner e
  hdr : ∀ e, SameButAge (s.hdr e) (t.hdr e)
  lasthigh : t.lasthigh = Function.update s.lasthigh ps 0
  stations : t.stations = s.stations
  attach : t.attach = s.attach

/-- **`et_events_put`.** -/
theorem etEventsPut_cases (hall : AllInPlace cfg s) (hs : s.Plain)
    (hzero : s.lasthigh (s.statOf att) = 0) (hne : pe ≠ []) (hnodup : pe.Nodup) :
    ((s.etEventsPut cfg os att (some pe)).1 ≠ .ok ∧ (s.etEventsPut cfg os att (some pe)).2 = s) ∨
      ((s.etEventsPut cfg os att (some pe)).1 = .ok ∧ s.Accepts att pe ∧
        BuffersPut s (s.etEventsPut cfg os att (some pe)).2 (s.statOf att) pe) := by
  unfold etEventsPut
  dsimp only
  rw [if_neg hne]
  split
  case isTrue => exact .inl ⟨error_ne_ok, rfl⟩
  case isFalse hatt =>
    split
    case isTrue => exact .inl ⟨error_ne_ok, rfl⟩
    case isFalse hgood =>
      have haccepts : s.Accepts att pe := by
        refine ⟨not_lt.mp hatt, fun e he => ?_⟩
        by_contra hno
        exact hgood ⟨e, he, .inr hno⟩
      obtain ⟨hok, hsame⟩ := @unmapAll_plain s os pe 0 hs
      have hlists : SameLists s (s.unmapAll os 0 pe).2 := unmapAll_same
      rw [if_neg (not_not.mpr hok)]
      set t := (s.unmapAll os 0 pe).2
      have hroom := Conserved.room hall hnodup (Conserved.of_accepts hall haccepts)
        (.output (s.statOf att))
      have hlow : ∀ e, isHigh t.hdr e = false := fun e => by
        unfold isHigh
        rw [(hsame e).2.2.1, (hs e).1]
        decide
      have hwrite : t.stationNwrite cfg (s.statOf att) pe =
          (.ok, { t.setList (.output (s.statOf att)) (s.list (.output (s.statOf att)) ++ pe) with
            lasthigh := Function.update s.lasthigh (s.statOf att) 0 }.give pe etSys) := by
        unfold stationNwrite
        rw [if_neg hne, if_neg (by rw [hlists.list]; omega), hlists.lasthigh, hzero, hlists.list,
          putEvents_low hlow]
      rw [hwrite]
      refine .inr ⟨rfl, haccepts, ?_, fun e => ?_, hsame, rfl, hlists.stations, hlists.attach⟩
      · exact congrArg (Function.update · _ _) hlists.list
      · show (if e ∈ pe then etSys else t.owner e) = _
        rw [hlists.owner]

end EventSystem

/-! ## Passes -/

/-- A batch of which nothing has been put. -/
theorem takeUnput_fresh (n : ℕ) (xs : List ℕ) :
    takeUnput (fun _ => true) n (xs.map (·, false)) =
      (xs.take n, (xs.take n).map (·, true) ++ (xs.drop n).map (·, false)) := by
  induction xs generalizing n with
  | nil => cases n <;> rfl
  | cons x xs ih =>
      cases n with
      | zero => rfl
      | succ n =>
          rw [List.map_cons, takeUnput]
          simp [ih]

theorem unput_taken (xs ys : List ℕ) :
    unput (xs.map (·, true) ++ ys.map (·, false)) = ys := by
  unfold unput
  rw [List.filter_append, List.filter_eq_nil_iff.mpr, List.nil_append, List.filter_eq_self.mpr]
  · simp [Function.comp_def]
  · simp
  · simp

theorem llistWrite_low {high : ℕ → Bool} (hlow : ∀ e, high e = false) (xs new : List ℕ) :
    llistWrite high xs new = xs ++ new := by
  cases new with
  | nil => simp
  | cons e new => exact if_pos (.inl (hlow e))

/-- The station "Users" takes all events, or as many as its cue has room for. -/
theorem FifoOptions.usersConfig_cases (o : FifoOptions) (ho : o.Accepted) :
    o.usersConfig.flowMode = .serial ∧ o.usersConfig.selectMode = .all ∧
      (o.blocking = true ∧ o.usersConfig.blockMode = .blocking ∧ o.usersConfig.prescale = 1 ∨
        o.blocking = false ∧ o.usersConfig.blockMode = .nonblocking ∧
          ∃ j : ℕ, o.usersConfig.cue = j * o.entryCount) := by
  obtain ⟨hmin, hmax, hcount, -⟩ := ho
  unfold usersConfig
  cases o.blocking with
  | true => exact ⟨rfl, rfl, .inl ⟨rfl, rfl, rfl⟩⟩
  | false =>
      have hfree : o.freeEntries < o.entries := by
        unfold freeEntries
        split <;> omega
      have hval : ((o.nevents : ℤ) - o.freeEntries * o.entryCount) =
          ((o.entries - o.freeEntries : ℕ) : ℤ) * o.entryCount := by
        unfold nevents
        rw [Nat.cast_sub hfree.le]
        push_cast
        ring
      have hpos : ¬ (o.nevents : ℤ) - o.freeEntries * o.entryCount < 1 := by
        rw [hval, not_lt]
        have : 0 < (o.entries - o.freeEntries) * o.entryCount :=
          Nat.mul_pos (Nat.sub_pos_of_lt hfree) hcount
        exact_mod_cast this
      rw [if_neg Bool.false_ne_true]
      dsimp only
      rw [if_neg hpos]
      exact ⟨rfl, rfl, .inr ⟨rfl, rfl, o.entries - o.freeEntries, hval⟩⟩

/-- The stations of a FIFO. -/
def fifoChain : List Group := [(0, []), (1, [])]

section Pass

variable {hdr : ℕ → EventHeader} {nevents : ℕ} {select : ℕ → ℕ → Bool} {w : Pass} {batch : List ℕ}

/-- What is left goes to GRAND_CENTRAL. -/
theorem finish_some (hroom : (w.listIn 0).length + batch.length ≤ nevents)
    (hpe : (if w.firstimethruloop then w.batch.map Prod.fst else unput w.batch) = batch)
    (hleft : w.eventsLeft = batch.length) :
    ∃ u, Pass.conduct hdr nevents select [] w = some u ∧ u.stations = w.stations ∧
      u.listIn = Function.update w.listIn 0 (w.listIn 0 ++ batch) := by
  unfold Pass.conduct
  split
  case isTrue h0 =>
    have hnil : batch = [] := List.length_eq_zero_iff.mp (hleft.symm.trans h0)
    refine ⟨w, rfl, rfl, ?_⟩
    rw [hnil, List.append_nil, Function.update_eq_self]
  case isFalse h0 =>
    have hne : batch ≠ [] := fun h => h0 (hleft.trans (List.length_eq_zero_iff.mpr h))
    unfold Pass.finish
    rw [hpe, if_neg hne, if_pos (by omega)]
    exact ⟨_, rfl, rfl, rfl⟩

theorem conduct_done (h : w.eventsLeft = 0) :
    Pass.conduct hdr nevents select [] w = some w := if_pos h

theorem take_blocking {ps : ℕ} (hb : (w.stations.config ps).blockMode = .blocking)
    (hs : (w.stations.config ps).selectMode = .all) : w.take select ps = w.takeAll ps := by
  unfold Pass.take
  rw [hb, hs]

theorem take_nonblocking {ps : ℕ} (hb : (w.stations.config ps).blockMode = .nonblocking)
    (hs : (w.stations.config ps).selectMode = .all) :
    w.take select ps = w.takeRoom (fun _ => true) ps := by
  unfold Pass.take
  rw [hb, hs]

end Pass

namespace EventSystem

variable {s t : EventSystem} {cfg : EventConfig} {os : OsAnswers} {select : ℕ → ℕ → Bool}
  {eventsTry : ℕ → ℕ} {o : FifoOptions}

/-- The pass of the conductor of "Users". -/
theorem pass_users (hroom : (s.list (.input 0)).length + (s.list (.output 1)).length ≤ cfg.nevents) :
    ∃ u, s.pass cfg select fifoChain 1 eventsTry = some u ∧ u.stations = s.stations ∧
      u.listIn = Function.update (fun ps => s.list (.input ps)) 0
        (s.list (.input 0) ++ s.list (.output 1)) :=
  @finish_some s.hdr cfg.nevents select _ _ hroom (by simp [Function.comp_def]) rfl

/-- **The pass of the conductor of GRAND_CENTRAL**: "Users" gets events from the front of the batch,
and GRAND_CENTRAL the others. -/
theorem pass_grandCentral (hs : s.Plain) (ho : o.Accepted)
    (husers : s.stations.config 1 = o.usersConfig)
    (hroom : ∀ ps, (s.list (.input ps)).length + (s.list (.output 0)).length ≤ cfg.nevents)
    (hbatch : o.entryCount ∣ (s.list (.output 0)).length)
    (hcue : o.entryCount ∣ (s.list (.input 1)).length) :
    ∃ k u, o.entryCount ∣ k ∧ s.pass cfg select fifoChain 0 eventsTry = some u ∧
      u.stations = s.stations ∧
      u.listIn = Function.update (Function.update (fun ps => s.list (.input ps)) 1
        (s.list (.input 1) ++ (s.list (.output 0)).take k)) 0
        (s.list (.input 0) ++ (s.list (.output 0)).drop k) ∧
      (o.blocking = true → s.stations.status 1 = .active → (s.list (.output 0)).length ≤ k) ∧
      (o.blocking = false → k ≤ (o.usersConfig.cue - (s.list (.input 1)).length).toNat) := by
  obtain ⟨hserial, hall, hblock⟩ := o.usersConfig_cases ho
  set batch := s.list (.output 0)
  set w : Pass := ⟨s.stations, fun ps => s.list (.input ps), eventsTry, s.ntemps,
    batch.map (·, false), batch.length, true⟩
  have hpass : s.pass cfg select fifoChain 0 eventsTry =
      Pass.conduct s.hdr cfg.nevents select [(1, [])] w := rfl
  rw [hpass]
  unfold Pass.conduct
  by_cases hempty : batch.length = 0
  · have hnil : batch = [] := List.length_eq_zero_iff.mp hempty
    rw [if_pos hempty]
    refine ⟨0, w, dvd_zero _, rfl, rfl, ?_, fun _ _ => hempty.le, fun _ => Nat.zero_le _⟩
    rw [hnil]
    funext ps
    rcases eq_or_ne ps 0 with rfl | h0
    · rw [Function.update_self, List.drop_nil, List.append_nil]
    rw [Function.update_of_ne h0]
    rcases eq_or_ne ps 1 with rfl | h1
    · rw [Function.update_self, List.take_nil, List.append_nil]
    · rw [Function.update_of_ne h1]
  rw [if_neg hempty]
  -- what is left goes to GRAND_CENTRAL
  have hfinish : ∀ (v : Pass) (k : ℕ), v.firstimethruloop = false → unput v.batch = batch.drop k →
      v.eventsLeft = (batch.drop k).length → v.stations = s.stations →
      v.listIn = Function.update (fun ps => s.list (.input ps)) 1
        (s.list (.input 1) ++ batch.take k) →
      ∃ u, Pass.conduct s.hdr cfg.nevents select [] v = some u ∧ u.stations = s.stations ∧
        u.listIn = Function.update (Function.update (fun ps => s.list (.input ps)) 1
          (s.list (.input 1) ++ batch.take k)) 0 (s.list (.input 0) ++ batch.drop k) := by
    intro v k hfirst hunput hleft hstations hlist
    have hlist0 : v.listIn 0 = s.list (.input 0) := by
      rw [hlist]
      exact Function.update_of_ne (by decide) ..
    obtain ⟨u, hu, hust, hulist⟩ := @finish_some s.hdr cfg.nevents select v (batch.drop k)
      (by rw [hlist0, List.length_drop]; have := hroom 0; omega) (by rw [hfirst]; exact hunput) hleft
    exact ⟨u, hu, hust.trans hstations, by rw [hulist, hlist0, hlist]⟩
  by_cases hactive : s.stations.status 1 = .active
  swap
  · have hstop : w.stop s.hdr cfg.nevents select (1, []) = some w := by
      unfold Pass.stop
      rw [if_pos]
      exact List.filter_eq_nil_iff.mpr (by simpa [w] using hactive)
    rw [hstop]
    obtain ⟨u, hu, hust, hulist⟩ := hfinish { w with firstimethruloop := false } 0 rfl
      (unput_taken [] batch) rfl rfl (by simp [w])
    exact ⟨0, u, dvd_zero _, hu, hust, hulist, fun _ h => absurd h hactive, fun _ => Nat.zero_le _⟩
  have hstop : w.stop s.hdr cfg.nevents select (1, []) =
      (w.serve s.hdr cfg.nevents select 1).map fun v => { v with firstimethruloop := false } := by
    unfold Pass.stop
    dsimp only
    have hactives : w.stations.actives [1] = [1] := List.filter_eq_self.mpr (by simpa [w] using hactive)
    have hparallel : ¬ w.stations.isParallel 1 = true := by
      unfold Stations.isParallel
      simp [w, husers, hserial]
    rw [hactives, if_neg (List.cons_ne_nil 1 []), if_neg (fun h => hparallel h.1), Pass.serveAll,
      if_neg hempty]
    cases w.serve s.hdr cfg.nevents select 1 <;> rfl
  rw [hstop]
  have hlow : ∀ e, isHigh s.hdr e = false := hs.isHigh
  -- the write into the input list of "Users"
  have hwrite : ∀ (v : Pass) (pe : List ℕ), v.listIn = w.listIn → pe.length ≤ batch.length →
      v.write s.hdr cfg.nevents 1 pe = some { v with
        listIn := Function.update v.listIn 1 (s.list (.input 1) ++ pe) } := by
    intro v pe hlist hlen
    have h1 : v.listIn 1 = s.list (.input 1) := by rw [hlist]
    unfold Pass.write
    rw [h1, if_pos (by have := hroom 1; omega), llistWrite_low hlow]
  have hconfig : w.stations.config 1 = o.usersConfig := husers
  rcases hblock with ⟨hblocking, hmode, hprescale⟩ | ⟨hnonblocking, hmode, j, hj⟩
  · have htake : w.take select 1 = (batch, { w with
        eventsTry := Function.update w.eventsTry 1 (w.eventsTry 1 + w.batch.length)
        eventsLeft := 0 }) := by
      have hmap : w.batch.map Prod.fst = batch := by simp [w, Function.comp_def]
      rw [take_blocking (by rw [hconfig, hmode]) (by rw [hconfig, hall])]
      unfold Pass.takeAll
      dsimp only
      rw [hconfig, hprescale, if_pos ⟨rfl, rfl⟩, hmap]
    have hserve := hwrite { w with
      eventsTry := Function.update w.eventsTry 1 (w.eventsTry 1 + w.batch.length)
      eventsLeft := 0 } batch rfl le_rfl
    unfold Pass.serve
    rw [htake]
    dsimp only at hserve ⊢
    rw [if_neg (fun h => hempty (List.length_eq_zero_iff.mpr h)), hserve]
    rw [Option.map_some, Option.bind_some]
    refine ⟨batch.length, _, hbatch, conduct_done rfl, rfl, ?_, fun _ _ => le_rfl, fun hno => ?_⟩
    swap
    · rw [hblocking] at hno
      cases hno
    have hlist0 : Function.update w.listIn 1 (s.list (.input 1) ++ batch) 0 = s.list (.input 0) :=
      Function.update_of_ne (by decide) ..
    dsimp only
    rw [List.take_length, List.drop_length, List.append_nil]
    conv_rhs => rw [← hlist0]
    exact (Function.update_eq_self ..).symm
  · have hroom1 : ∃ j', ((w.stations.config 1).cue - (w.listIn 1).length).toNat = j' * o.entryCount := by
      obtain ⟨i, hi⟩ := hcue
      refine ⟨j - i, ?_⟩
      have hlist1 : (w.listIn 1).length = i * o.entryCount := hi.trans (mul_comm ..)
      rw [hconfig, hj, hlist1, ← Nat.cast_mul, Int.toNat_sub, Nat.sub_mul]
    obtain ⟨j', hj'⟩ := hroom1
    set k := j' * o.entryCount
    have hk : k = (o.usersConfig.cue - (s.list (.input 1)).length).toNat := by
      rw [← hconfig]
      exact hj'.symm
    have hlen : (batch.take k).length ≤ batch.length := by
      rw [List.length_take]
      exact min_le_right ..
    have htake : w.take select 1 = (batch.take k, { w with
        batch := (batch.take k).map (·, true) ++ (batch.drop k).map (·, false)
        eventsLeft := batch.length - (batch.take k).length }) := by
      have hbatchEq : w.batch = batch.map (·, false) := rfl
      rw [take_nonblocking (by rw [hconfig, hmode]) (by rw [hconfig, hall])]
      unfold Pass.takeRoom
      dsimp only
      rw [hj', hbatchEq, takeUnput_fresh]
    have hserve : w.serve s.hdr cfg.nevents select 1 = some { w with
        batch := (batch.take k).map (·, true) ++ (batch.drop k).map (·, false)
        eventsLeft := batch.length - (batch.take k).length
        listIn := Function.update w.listIn 1 (s.list (.input 1) ++ batch.take k) } := by
      unfold Pass.serve
      rw [htake]
      dsimp only
      split
      case isTrue hnone =>
        rw [hnone, List.append_nil]
        have hsame : Function.update w.listIn 1 (s.list (.input 1)) = w.listIn :=
          Function.update_eq_self ..
        rw [hsame]
      case isFalse => exact hwrite _ _ rfl hlen
    rw [hserve, Option.map_some, Option.bind_some]
    obtain ⟨u, hu, hust, hulist⟩ := hfinish { w with
      batch := (batch.take k).map (·, true) ++ (batch.drop k).map (·, false)
      eventsLeft := batch.length - (batch.take k).length
      listIn := Function.update w.listIn 1 (s.list (.input 1) ++ batch.take k)
      firstimethruloop := false } k rfl (unput_taken _ _)
      (by rw [List.length_take, List.length_drop]; dsimp only; omega) rfl rfl
    refine ⟨k, u, Dvd.intro_left j' rfl, hu, hust, hulist, fun hb' _ => ?_, fun _ => hk.le⟩
    rw [hnonblocking] at hb'
    cases hb'

/-! ## Buffers by id -/

/-- A process asks for buffers of an entry, one after the other. -/
def getBufs (s : EventSystem) (bufs : List ℕ) : List ℤ → List (Option ℕ) × EventSystem
  | [] => ([], s)
  | id :: ids =>
      let r := s.etFifoGetBuf id bufs
      let q := getBufs r.2 bufs ids
      (r.1 :: q.1, q.2)

/-- The buffers have control words, and ids that were given stay. -/
structure KeepsIds (bufs : List ℕ) (s t : EventSystem) : Prop where
  words : (∀ e ∈ bufs, (s.hdr e).control ≠ []) → ∀ e ∈ bufs, (t.hdr e).control ≠ []
  ids : ∀ e, s.control0 e ≠ -1 → t.control0 e = s.control0 e
  other : ∀ e ∉ bufs, t.hdr e = s.hdr e

/-- The first buffer that has the id, or none, has it. -/
def Settled (s : EventSystem) (id : ℤ) : List ℕ → Prop
  | [] => True
  | e :: bufs => s.control0 e = id ∨ s.control0 e ≠ -1 ∧ Settled s id bufs

variable {id : ℤ} {u : EventSystem}

theorem KeepsIds.refl (bufs : List ℕ) (s : EventSystem) : KeepsIds bufs s s :=
  ⟨id, fun _ _ => rfl, fun _ _ => rfl⟩

theorem KeepsIds.trans (h : KeepsIds bufs s t) (h' : KeepsIds bufs t u) : KeepsIds bufs s u := by
  refine ⟨fun hs => h'.words (h.words hs), fun e he => ?_,
    fun e he => (h'.other e he).trans (h.other e he)⟩
  have hkeep := h.ids e he
  rw [h'.ids e (hkeep.symm ▸ he), hkeep]

theorem KeepsIds.mono {more : List ℕ} (h : KeepsIds bufs s t) (hsub : bufs ⊆ more)
    (hwords : ∀ e ∉ bufs, (s.hdr e).control = (t.hdr e).control) : KeepsIds more s t := by
  refine ⟨fun hs e he => ?_, h.ids, fun e he => h.other e fun hin => he (hsub hin)⟩
  by_cases hin : e ∈ bufs
  · exact h.words (fun x hx => hs x (hsub hx)) e hin
  · exact hwords e hin ▸ hs e he

theorem setControl0_self (h : (s.hdr e).control ≠ []) : (s.setControl0 e id).control0 e = id := by
  unfold setControl0 control0 setHdr
  dsimp only
  rw [Function.update_self]
  cases hc : (s.hdr e).control with
  | nil => exact absurd hc h
  | cons c cs => rfl

theorem setControl0_keepsIds (he : e ∈ bufs) (hfree : s.control0 e = -1) :
    KeepsIds bufs s (s.setControl0 e id) := by
  unfold setControl0 setHdr
  refine ⟨fun hs x hx => ?_, fun x hx => ?_, fun x hx => ?_⟩
  · dsimp only
    rcases eq_or_ne x e with rfl | hne
    · rw [Function.update_self]
      simpa using hs x hx
    · rw [Function.update_of_ne hne]
      exact hs x hx
  · have hne : x ≠ e := fun heq => hx (heq ▸ hfree)
    unfold control0
    dsimp only
    rw [Function.update_of_ne hne]
  · exact Function.update_of_ne (ne_of_mem_of_not_mem he hx).symm ..

/-- **One call**: the buffer that is returned is the first one with the id then. -/
theorem etFifoGetBuf_spec (hwords : ∀ e ∈ bufs, (s.hdr e).control ≠ []) :
    KeepsIds bufs s (s.etFifoGetBuf id bufs).2 ∧ Settled (s.etFifoGetBuf id bufs).2 id bufs ∧
      (s.etFifoGetBuf id bufs).1 =
        bufs.find? fun e => (s.etFifoGetBuf id bufs).2.control0 e = id := by
  induction bufs with
  | nil => exact ⟨.refl [] s, trivial, rfl⟩
  | cons e bufs ih =>
      unfold etFifoGetBuf
      split
      case isTrue heq =>
        refine ⟨.refl _ s, .inl heq, ?_⟩
        rw [List.find?_cons_of_pos (by simpa using heq)]
      case isFalse hne =>
        split
        case isTrue hfree =>
          have hself : (s.setControl0 e id).control0 e = id :=
            setControl0_self (hwords e List.mem_cons_self)
          refine ⟨setControl0_keepsIds List.mem_cons_self hfree, .inl hself, ?_⟩
          rw [List.find?_cons_of_pos (by simpa using hself)]
        case isFalse hused =>
          obtain ⟨hkeeps, hsettled, hfind⟩ := ih fun x hx => hwords x (List.mem_cons_of_mem e hx)
          have he : (s.etFifoGetBuf id bufs).2.control0 e = s.control0 e := hkeeps.ids e hused
          refine ⟨hkeeps.mono (List.subset_cons_self e bufs) fun x hx => ?_, .inr ⟨?_, hsettled⟩, ?_⟩
          · rw [hkeeps.other x hx]
          · rw [he]
            exact hused
          · rw [List.find?_cons_of_neg (by simpa [he] using hne)]
            exact hfind

/-- Later calls find the same buffer. -/
theorem Settled.find_eq (hsettled : Settled s id bufs) (hid : id ≠ -1) (h : KeepsIds pe s t) :
    (bufs.find? fun e => t.control0 e = id) = bufs.find? fun e => s.control0 e = id := by
  induction bufs with
  | nil => rfl
  | cons e bufs ih =>
      have hkeep : s.control0 e ≠ -1 → t.control0 e = s.control0 e := h.ids e
      rcases hsettled with heq | ⟨hused, hrest⟩
      · have ht : t.control0 e = id := (hkeep (heq ▸ hid)).trans heq
        rw [List.find?_cons_of_pos (by simpa using ht), List.find?_cons_of_pos (by simpa using heq)]
      · rw [List.find?_cons, List.find?_cons, hkeep hused, ih hrest]

theorem getBufs_keepsIds (hids : -1 ∉ ids) (hwords : ∀ e ∈ bufs, (s.hdr e).control ≠ []) :
    KeepsIds bufs s (s.getBufs bufs ids).2 := by
  induction ids generalizing s with
  | nil => exact .refl bufs s
  | cons id ids ih =>
      rw [List.mem_cons, not_or] at hids
      obtain ⟨hkeeps, -, -⟩ := @etFifoGetBuf_spec s id bufs hwords
      exact hkeeps.trans (ih hids.2 (hkeeps.words hwords))

/-- No buffer is found only when all have other ids. -/
theorem Settled.used (hsettled : Settled s id bufs)
    (hnone : (bufs.find? fun e => s.control0 e = id) = none) (e : ℕ) (he : e ∈ bufs) :
    s.control0 e ≠ -1 := by
  induction bufs with
  | nil => exact absurd he List.not_mem_nil
  | cons x bufs ih =>
      rw [List.find?_eq_none] at hnone
      have hx : s.control0 x ≠ id := by simpa using hnone x List.mem_cons_self
      obtain ⟨hused, hrest⟩ := hsettled.resolve_left hx
      rcases List.mem_cons.mp he with rfl | he
      · exact hused
      · exact ih hrest (List.find?_eq_none.mpr fun y hy => hnone y (List.mem_cons_of_mem x hy)) he

/-- **A buffer for every id.**  When a process has asked for the buffers of some ids, in any order and
any number of times, each call has been answered with the first buffer that has its id in the end:
calls for one id have got one buffer, and calls for different ids different ones.  A call that has got
none has found no buffer without an id. -/
theorem getBufs_answers (hids : -1 ∉ ids) (hwords : ∀ e ∈ bufs, (s.hdr e).control ≠ []) :
    ((s.getBufs bufs ids).1 =
        ids.map fun id => bufs.find? fun e => (s.getBufs bufs ids).2.control0 e = id) ∧
      (none ∈ (s.getBufs bufs ids).1 → ∀ e ∈ bufs, (s.getBufs bufs ids).2.control0 e ≠ -1) := by
  induction ids generalizing s with
  | nil => exact ⟨rfl, fun hnone => absurd hnone List.not_mem_nil⟩
  | cons id ids ih =>
      rw [List.mem_cons, not_or] at hids
      have hid : id ≠ -1 := Ne.symm hids.1
      obtain ⟨hkeeps, hsettled, hfind⟩ := @etFifoGetBuf_spec s id bufs hwords
      have hwords' := hkeeps.words hwords
      have hlater := getBufs_keepsIds hids.2 hwords'
      obtain ⟨hrest, hnone⟩ := ih hids.2 hwords'
      unfold getBufs
      dsimp only
      refine ⟨?_, fun hin e he => ?_⟩
      · rw [List.map_cons, hfind, hsettled.find_eq hid hlater, ← hrest]
      · rcases List.mem_cons.mp hin with hthis | hin
        · have hused := hsettled.used (hfind.symm.trans hthis.symm) e he
          rw [hlater.ids e hused]
          exact hused
        · exact hnone hin e he

end EventSystem

/-- Buffers `0`, `1` and `2` of a fresh system: `0` has the id `7`, and the others have none. -/
def labelledBufs : EventSystem := freshEvents.labelBufs [7] [0, 1, 2]

/-- The ids `7`, `9`, `8` and again `9` are asked for, and then `5`. -/
theorem getBufs_answers_example :
    (labelledBufs.getBufs [0, 1, 2] [7, 9, 8, 9, 5]).1 =
        [some 0, some 1, some 2, some 1, none] ∧
      ((labelledBufs.getBufs [0, 1, 2] [7, 9, 8, 9, 5]).1 = [7, 9, 8, 9, 5].map fun id =>
        [0, 1, 2].find? fun e =>
          (labelledBufs.getBufs [0, 1, 2] [7, 9, 8, 9, 5]).2.control0 e = id) ∧
      (none ∈ (labelledBufs.getBufs [0, 1, 2] [7, 9, 8, 9, 5]).1 → ∀ e ∈ [0, 1, 2],
        (labelledBufs.getBufs [0, 1, 2] [7, 9, 8, 9, 5]).2.control0 e ≠ -1) :=
  ⟨by decide, EventSystem.getBufs_answers (s := labelledBufs) (by decide) (by decide)⟩

end EventTransfer
