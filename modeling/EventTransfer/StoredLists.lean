import EventTransfer.EventMoves
import EventTransfer.OutputWrite

/-!
# The lists of a run in memory

A run speaks of the contents of the lists.  In memory a list is its header, with the count and with
the first and the last event, and the links of its events.  Beside the run of the system stands
here the memory that it works on: every list that a step reads or writes is read or written by the
routine of the source, store by store, and `InMemory` says that each header describes exactly the
contents.

* `SharedLists` — the events and the headers of all lists.
* `Routine` — one routine works on one list.
* `InMemory.routine` — the headers are right again after each of them.
* `Effect.performs` — every step of the system is made of them.
* `events_inOnePlace` — in every run, each event is in one place, and each list's count is the
  number of events from its first to its last.
-/

namespace EventTransfer

open Places StepRun LinkedHeap StoreProgram StoreProgram.Prog Relation

/-! ## The routines of the conductors -/

/-- The array that `et_llist_read` fills: `cnt` events, each found by the link of the one before. -/
def linkedEvents (ev : Events) : ℕ → Option ℕ → List ℕ
  | 0, _ => []
  | _ + 1, none => []
  | n + 1, some e => e :: linkedEvents ev n (ev.next e)

/-- `et_llist_read`: all events of the list.  No event stands for `ET_ERROR`. -/
def etLlistRead : Prog OutMem (List ℕ) := do
  let m ← get
  if m.pl.cnt = 0 then pure []
  else do
    store fun t => { t with pl.firstevent := none }
    store fun t => { t with pl.cnt := 0 }
    store fun t => { t with pl.lasthigh := 0 }
    store fun t => { t with pl.eventsOut := t.pl.eventsOut + m.pl.cnt }
    pure (linkedEvents m.ev m.pl.cnt m.pl.firstevent)

/-- `et_llist_write_gc`.  It is never called with no events. -/
def etLlistWriteGc (nevents : ℕ) (pe : List ℕ) : Prog InMem Ret := do
  let m ← get
  if nevents - m.pl.cnt < pe.length then pure .error
  else do
    if m.pl.cnt = 0 then
      store fun t => { t with pl.firstevent := pe.head? }
    else
      store fun t => { t with ev := t.ev.setNext t.pl.lastevent pe.head? }
    stringEvents pe
    store fun t => { t with pl.lastevent := pe.getLast? }
    store fun t => { t with pl.eventsIn := t.pl.eventsIn + pe.length }
    store fun t => { t with pl.cnt := t.pl.cnt + pe.length }
    pure .ok

section Conductor

variable {xs new : List ℕ}

theorem linkedEvents_eq {ev : Events} {p : Option ℕ} (hl : Linked ev.next xs)
    (hp : xs ≠ [] → p = xs.head?) : linkedEvents ev xs.length p = xs := by
  induction xs generalizing p with
  | nil => cases p <;> rfl
  | cons e xs ih =>
      rw [hp (List.cons_ne_nil e xs), List.head?_cons, List.length_cons]
      refine congrArg (e :: ·) (ih (List.IsChain.tail hl) fun hne => ?_)
      obtain ⟨b, ys, rfl⟩ := List.exists_cons_of_ne_nil hne
      exact ((linked_cons_cons _ _ _ _).mp hl).1

/-- **`et_llist_read`** empties the list. -/
theorem wp_etLlistRead {m : OutMem} (h : IsList m.ev m.pl xs) :
    wp etLlistRead (fun _ => True) (fun r t => r = xs ∧ IsList t.ev t.pl [] ∧ t.ev = m.ev ∧
      (xs ≠ [] → t.pl.lasthigh = 0) ∧ (xs = [] → t = m) ∧ t.fix = m.fix) m := by
  unfold etLlistRead
  rw [wp_bind, wp_get]
  refine ⟨trivial, ?_⟩
  rw [wp_ite]
  split
  case isTrue hz =>
    obtain rfl : xs = [] := List.length_eq_zero_iff.mp (h.cnt_eq.symm.trans hz)
    rw [wp_pure]
    exact ⟨trivial, rfl, h, rfl, fun hne => absurd rfl hne, fun _ => rfl, rfl⟩
  case isFalse hz =>
    have hne : xs ≠ [] := by
      rintro rfl
      exact hz h.cnt_eq
    simp only [wp_bind, wp_store, wp_pure, true_and]
    refine ⟨?_, ⟨rfl, .nil _ _ _⟩, fun _ => trivial, fun hnil => absurd hnil hne, trivial⟩
    rw [h.cnt_eq]
    exact linkedEvents_eq h.spans.linked h.spans.first_eq

/-- **`et_llist_write_gc`** of a batch that has room. -/
theorem wp_etLlistWriteGc {m : InMem} {nevents : ℕ} (h : IsList m.ev m.pl xs) (hne : new ≠ [])
    (hnd : new.Nodup) (hdis : ∀ a ∈ new, a ∉ xs) (hroom : xs.length + new.length ≤ nevents) :
    wp (etLlistWriteGc nevents new) (fun _ => True) (fun r t => r = .ok ∧
      IsList t.ev t.pl (xs ++ new) ∧ t.ev.hdr = m.ev.hdr ∧ t.ev.owner = m.ev.owner ∧
      (∀ a, a ∉ xs ++ new → t.ev.next a = m.ev.next a) ∧ t.fix = m.fix) m := by
  have hcnt := h.cnt_eq
  have hndall : (xs ++ new).Nodup :=
    List.nodup_append.mpr ⟨h.spans.nodup, hnd, fun a ha b hb hab => hdis b hb (hab ▸ ha)⟩
  unfold etLlistWriteGc
  rw [wp_bind, wp_get]
  refine ⟨trivial, ?_⟩
  rw [wp_ite, if_neg (by omega)]
  simp only [wp_bind, wp_ite, wp_store, wp_pure, true_and]
  rcases eq_or_ne xs [] with rfl | hxs
  · rw [if_pos (hcnt.trans List.length_nil)]
    refine wp_stringEvents ⟨⟨?_, ?_⟩, rfl, rfl, fun a ha => ?_, rfl⟩
    · show m.pl.cnt + new.length = _
      rw [hcnt, List.length_append]
    · exact ⟨linked_linkUp hnd, hnd, fun _ => rfl, fun _ => rfl⟩
    · exact linkUp_of_notMem fun hm => ha (List.mem_of_mem_dropLast hm)
  · have hcnt0 : m.pl.cnt ≠ 0 := by
      rw [hcnt]
      exact fun hz => hxs (List.length_eq_zero_iff.mp hz)
    obtain ⟨a, ha⟩ := exists_getLast? hxs
    have hamem : a ∈ xs := List.mem_of_getLast? ha
    have hlast : m.pl.lastevent = some a := (h.spans.last_eq hxs).trans ha
    have hnew : ∀ b ∈ xs, b ∉ new := fun b hb hn => hdis b hn hb
    have hnext : ∀ b, b ∉ new → linkUp new (Function.update m.ev.next a new.head?) b =
        Function.update m.ev.next a new.head? b :=
      fun b hb => linkUp_of_notMem fun hm => hb (List.mem_of_mem_dropLast hm)
    rw [if_neg hcnt0, hlast]
    refine wp_stringEvents ⟨⟨?_, ?_⟩, rfl, rfl, fun b hb => ?_, rfl⟩
    · show m.pl.cnt + new.length = _
      rw [hcnt, List.length_append]
    · refine h.spans.append hxs (linked_linkUp hnd) hne hndall (fun b hb => ?_) fun b hb => ?_
      · have hba : b ≠ a := ne_of_mem_of_not_mem hb (notMem_dropLast_of_nodup h.spans.nodup ha)
        exact (hnext b (hnew b (List.mem_of_mem_dropLast hb))).trans (Function.update_of_ne hba ..)
      · obtain rfl : a = b := Option.some.inj (ha.symm.trans hb)
        exact (hnext a (hnew a hamem)).trans (Function.update_self ..)
    · rw [List.mem_append, not_or] at hb
      have hba : b ≠ a := fun hab => hb.1 (hab ▸ hamem)
      exact (hnext b hb.2).trans (Function.update_of_ne hba ..)

end Conductor

/-! ## The memory -/

/-- **The lists in memory**: the array of events; and of each list its header, with the notes for
its repair. -/
structure SharedLists where
  ev : Events
  pl : ListName → EtList
  fixIn : ℕ → FixIn
  fixOut : ℕ → FixOut

/-- What a routine sees and stores to that works on the input list of `ps`. -/
def inputMem (ps : ℕ) : Part SharedLists InMem where
  view m := ⟨m.ev, m.pl (.input ps), m.fixIn ps⟩
  put m t :=
    { m with
      ev := t.ev
      pl := Function.update m.pl (.input ps) t.pl
      fixIn := Function.update m.fixIn ps t.fix }
  put_view m := by simp

/-- The same for its output list. -/
def outputMem (ps : ℕ) : Part SharedLists OutMem where
  view m := ⟨m.ev, m.pl (.output ps), m.fixOut ps⟩
  put m t :=
    { m with
      ev := t.ev
      pl := Function.update m.pl (.output ps) t.pl
      fixOut := Function.update m.fixOut ps t.fix }
  put_view m := by simp

/-- The owners and the headers of a state of the system. -/
def SharedLists.setFields (m : SharedLists) (s : EventSystem) : SharedLists :=
  { m with ev := ⟨m.ev.next, s.owner, s.hdr⟩ }

/-- **The memory holds the system**: each header describes the contents of its list, no routine is
at work, and the events in lists belong to the system. -/
structure InMemory (s : EventSystem) (m : SharedLists) : Prop where
  owner : m.ev.owner = s.owner
  hdr : m.ev.hdr = s.hdr
  isList : ∀ l, IsList m.ev (m.pl l) (s.list l)
  lasthigh : ∀ ps, (m.pl (.output ps)).lasthigh = s.lasthigh ps
  closedIn : ∀ ps, (m.fixIn ps).first = none ∧ (m.fixIn ps).start = 0
  closedOut : ∀ ps, (m.fixOut ps).start = 0
  separate : Separate s.list
  owned : ∀ l, ∀ e ∈ s.list l, s.owner e = etSys
  highs : ∀ ps, s.lasthigh ps ≤ (s.list (.output ps)).length

/-- The output list of `me` when its conductor has read it. -/
def EventSystem.emptied (s : EventSystem) (me : ℕ) : EventSystem :=
  { s.setList (.output me) [] with lasthigh := Function.update s.lasthigh me 0 }

/-- **A routine runs on a list**, or fields of events are stored to: what becomes of the system, and
of the memory. -/
inductive Routine (cfg : EventConfig) :
    EventSystem × SharedLists → EventSystem × SharedLists → Prop
  | fields {s t : EventSystem} (m : SharedLists) (list : t.list = s.list)
      (lasthigh : t.lasthigh = s.lasthigh) (owner : ∀ l, ∀ e ∈ s.list l, t.owner e = s.owner e) :
      Routine cfg (s, m) (t, m.setFields t)
  | read {s : EventSystem} (m : SharedLists) {r : StationRead} {ps : ℕ} (att : ℤ)
      (some : s.list (.input ps) ≠ []) (wanted : r.num ≠ 0) :
      Routine cfg (s, m) (s.takes r ps att, final ((inputMem ps).zoom (r.program att)) m)
  | write {s : EventSystem} (m : SharedLists) (ps : ℕ) {e : ℕ} (new : s.Unlisted [e]) :
      Routine cfg (s, m) ((s.stationNwrite cfg ps [e]).2,
        final ((outputMem ps).zoom (stationWrite cfg.nevents e)) m)
  | nwrite {s : EventSystem} (m : SharedLists) (ps : ℕ) {pe : List ℕ} (new : s.Unlisted pe) :
      Routine cfg (s, m) ((s.stationNwrite cfg ps pe).2,
        final ((outputMem ps).zoom (stationNwrite cfg.nevents pe)) m)
  | dump {s : EventSystem} (m : SharedLists) {e : ℕ} (new : s.Unlisted [e]) :
      Routine cfg (s, m) ((s.stationNdump cfg [e]).2,
        final ((inputMem 0).zoom (stationDump cfg.nevents e)) m)
  | ndump {s : EventSystem} (m : SharedLists) {pe : List ℕ} (new : s.Unlisted pe) :
      Routine cfg (s, m) ((s.stationNdump cfg pe).2,
        final ((inputMem 0).zoom (stationNdump cfg.nevents pe)) m)
  | restoreIn {s : EventSystem} (m : SharedLists) (ps : ℕ) {pe : List ℕ} (new : s.Unlisted pe) :
      Routine cfg (s, m) ((s.restore cfg (.input ps) pe).2,
        final ((inputMem ps).zoom (restore cfg.nevents pe)) m)
  | restoreOut {s : EventSystem} (m : SharedLists) (ps : ℕ) {pe : List ℕ} (new : s.Unlisted pe) :
      Routine cfg (s, m) ((s.restore cfg (.output ps) pe).2,
        final ((outputMem ps).zoom (restore cfg.nevents pe)) m)
  | llistRead (s : EventSystem) (m : SharedLists) (me : ℕ) :
      Routine cfg (s, m) (s.emptied me, final ((outputMem me).zoom etLlistRead) m)
  | llistWrite {s : EventSystem} (m : SharedLists) (ps : ℕ) {pe : List ℕ} (new : s.Unlisted pe)
      (owned : ∀ e ∈ pe, s.owner e = etSys) (some : pe ≠ [])
      (room : (s.list (.input ps)).length + pe.length ≤ cfg.nevents) :
      Routine cfg (s, m)
        (s.setList (.input ps) (llistWrite (isHigh s.hdr) (s.list (.input ps)) pe),
          final ((inputMem ps).zoom (etLlistWrite cfg.nevents pe)) m)
  | llistWriteGc {s : EventSystem} (m : SharedLists) {pe : List ℕ} (new : s.Unlisted pe)
      (owned : ∀ e ∈ pe, s.owner e = etSys) (some : pe ≠ [])
      (room : (s.list (.input 0)).length + pe.length ≤ cfg.nevents) :
      Routine cfg (s, m) (s.setList (.input 0) (s.list (.input 0) ++ pe),
        final ((inputMem 0).zoom (etLlistWriteGc cfg.nevents pe)) m)

/-! ## One routine -/

section OneRoutine

open EventSystem

variable {s u : EventSystem} {m : SharedLists} {cfg : EventConfig} {l : ListName}
  {xs pe : List ℕ} {ps : ℕ}

theorem EventSystem.give_nil (s : EventSystem) (a : ℤ) : s.give [] a = s := by
  unfold give
  simp

theorem EventSystem.stationNwrite_room
    (hroom : pe.length ≤ cfg.nevents - (s.list (.output ps)).length) :
    (s.stationNwrite cfg ps pe).2 = ({ s.setList (.output ps)
      (putEvents (isHigh s.hdr) (s.lasthigh ps, s.list (.output ps)) pe).2 with
        lasthigh := Function.update s.lasthigh ps
          (putEvents (isHigh s.hdr) (s.lasthigh ps, s.list (.output ps)) pe).1 } :
            EventSystem).give pe etSys := by
  unfold stationNwrite
  split
  case isTrue hnil =>
    rw [hnil, give_nil, putEvents_nil]
    unfold setList
    simp
  case isFalse => rw [if_neg (by omega)]

theorem EventSystem.stationNwrite_full
    (hfull : ¬ pe.length ≤ cfg.nevents - (s.list (.output ps)).length) :
    (s.stationNwrite cfg ps pe).2 = s := by
  unfold stationNwrite
  split
  case isTrue => rfl
  case isFalse => rw [if_pos (by omega)]

theorem EventSystem.stationNdump_room
    (hroom : pe.length ≤ cfg.nevents - (s.list (.input 0)).length) :
    (s.stationNdump cfg pe).2 =
      (s.setList (.input 0) (s.list (.input 0) ++ pe)).give pe etSys := by
  have hput : (Post.ndump pe).put s.hdr cfg.nevents (s.list (.input 0)) =
      (s.list (.input 0) ++ pe, true) := if_neg (by omega)
  unfold stationNdump
  rw [hput]
  dsimp only
  split
  case isTrue hnil =>
    rw [hnil, give_nil, List.append_nil]
    unfold setList
    simp
  case isFalse => rfl

theorem EventSystem.stationNdump_full
    (hfull : ¬ pe.length ≤ cfg.nevents - (s.list (.input 0)).length) :
    (s.stationNdump cfg pe).2 = s := by
  have hput : (Post.ndump pe).put s.hdr cfg.nevents (s.list (.input 0)) =
      (s.list (.input 0), false) := if_pos (by omega)
  unfold stationNdump
  rw [hput]
  dsimp only
  split
  case isTrue => rfl
  case isFalse => rfl

namespace InMemory

/-- **One list changes**: the headers of the others are still right. -/
theorem lists (h : InMemory s m) {ev : Events} {pl : EtList} (new : s.Unlisted pe)
    (isList : IsList ev pl xs) (next : ∀ a, a ∉ s.list l ++ pe → ev.next a = m.ev.next a)
    (l' : ListName) : IsList ev (Function.update m.pl l pl l') (Function.update s.list l xs l') := by
  rcases eq_or_ne l' l with rfl | hl
  · rw [Function.update_self, Function.update_self]
    exact isList
  · rw [Function.update_of_ne hl, Function.update_of_ne hl]
    refine (h.isList l').congr fun e he => next e fun hmem => ?_
    rcases List.mem_append.mp hmem with hmem | hmem
    · exact hl (h.separate.once l' l e he hmem)
    · exact new.out e hmem l' he

/-- A routine that has worked on an input list. -/
theorem input (h : InMemory s m) {t : InMem} (new : s.Unlisted pe)
    (list : u.list = Function.update s.list (.input ps) xs) (lasthigh : u.lasthigh = s.lasthigh)
    (isList : IsList t.ev t.pl xs)
    (next : ∀ a, a ∉ s.list (.input ps) ++ pe → t.ev.next a = m.ev.next a)
    (owner : t.ev.owner = u.owner) (hdr : t.ev.hdr = u.hdr)
    (closed : t.fix.first = none ∧ t.fix.start = 0) (separate : Separate u.list)
    (owned : ∀ l, ∀ e ∈ u.list l, u.owner e = etSys) : InMemory u ((inputMem ps).put m t) where
  owner := owner
  hdr := hdr
  isList l := by
    rw [list]
    exact h.lists new isList next l
  lasthigh r := by
    show (Function.update m.pl (.input ps) t.pl (.output r)).lasthigh = _
    rw [lasthigh, Function.update_of_ne ListName.noConfusion]
    exact h.lasthigh r
  closedIn r := by
    show (Function.update m.fixIn ps t.fix r).first = none ∧
      (Function.update m.fixIn ps t.fix r).start = 0
    rcases eq_or_ne r ps with rfl | hr
    · rw [Function.update_self]
      exact closed
    · rw [Function.update_of_ne hr]
      exact h.closedIn r
  closedOut := h.closedOut
  separate := separate
  owned := owned
  highs r := by
    rw [lasthigh, list, Function.update_of_ne ListName.noConfusion]
    exact h.highs r

/-- A routine that has worked on an output list. -/
theorem output (h : InMemory s m) {t : OutMem} {k : ℕ} (new : s.Unlisted pe)
    (list : u.list = Function.update s.list (.output ps) xs)
    (lasthigh : u.lasthigh = Function.update s.lasthigh ps k) (isList : IsList t.ev t.pl xs)
    (next : ∀ a, a ∉ s.list (.output ps) ++ pe → t.ev.next a = m.ev.next a)
    (owner : t.ev.owner = u.owner) (hdr : t.ev.hdr = u.hdr) (count : t.pl.lasthigh = k)
    (closed : t.fix.start = 0) (separate : Separate u.list)
    (owned : ∀ l, ∀ e ∈ u.list l, u.owner e = etSys) (highs : k ≤ xs.length) :
    InMemory u ((outputMem ps).put m t) where
  owner := owner
  hdr := hdr
  isList l := by
    rw [list]
    exact h.lists new isList next l
  lasthigh r := by
    show (Function.update m.pl (.output ps) t.pl (.output r)).lasthigh = _
    rw [lasthigh]
    rcases eq_or_ne r ps with rfl | hr
    · rw [Function.update_self, Function.update_self]
      exact count
    · rw [Function.update_of_ne hr, Function.update_of_ne (fun h => hr (ListName.output.inj h))]
      exact h.lasthigh r
  closedIn := h.closedIn
  closedOut r := by
    show (Function.update m.fixOut ps t.fix r).start = 0
    rcases eq_or_ne r ps with rfl | hr
    · rw [Function.update_self]
      exact closed
    · rw [Function.update_of_ne hr]
      exact h.closedOut r
  separate := separate
  owned := owned
  highs r := by
    rw [lasthigh, list]
    rcases eq_or_ne r ps with rfl | hr
    · rw [Function.update_self, Function.update_self]
      exact highs
    · rw [Function.update_of_ne hr, Function.update_of_ne (fun h => hr (ListName.output.inj h))]
      exact h.highs r

/-- Events put into a list are separate from the others, and belong to the system. -/
theorem puts (h : InMemory s m) (new : s.Unlisted pe) (hputs : Puts s u l pe) :
    Separate u.list ∧ ∀ l, ∀ e ∈ u.list l, u.owner e = etSys := by
  obtain ⟨xs, hperm, hlist⟩ := hputs.list
  refine ⟨?_, fun l' e he => ?_⟩
  · rw [hlist]
    exact h.separate.put new.nodup (fun l e he => new.out e he l) hperm
  · rw [hputs.owner]
    split
    case isTrue => rfl
    case isFalse hnot =>
      exact h.owned l' e (((hputs.mem l' e).mp he).resolve_right fun hin => hnot hin.2)

/-! What each routine leaves. -/

theorem read (h : InMemory s m) {r : StationRead} (att : ℤ) (some : s.list (.input ps) ≠ [])
    (wanted : r.num ≠ 0) :
    InMemory (s.takes r ps att) (final ((inputMem ps).zoom (r.program att)) m) := by
  have hread : Readable ((inputMem ps).view m) (s.list (.input ps)) :=
    ⟨h.isList _, fun e he => (congrFun h.owner e).trans (h.owned _ e he), (h.closedIn ps).1⟩
  obtain ⟨-, -, ht⟩ := @StationRead.wp_program_done att _ _ r hread some wanted
  have hhdr : ((inputMem ps).view m).ev.hdr = s.hdr := h.hdr
  rw [hhdr] at ht
  rw [Part.final_zoom]
  have hperm : ((r.handOut s.hdr (s.list (.input ps))).1 ++
      (r.handOut s.hdr (s.list (.input ps))).2).Perm (s.list (.input ps)) := takeWhere_perm
  refine h.input ⟨List.nodup_nil, fun _ he => absurd he List.not_mem_nil⟩ rfl rfl ht.isList
    (fun a ha => ht.next a ?_) ?_ (ht.hdr.trans h.hdr) ⟨ht.closed, ht.start.trans (h.closedIn ps).2⟩
    (h.separate.take hperm) fun l e he => ?_
  · rwa [List.append_nil] at ha
  · funext a
    rw [ht.owner]
    exact congrArg (fun x => if a ∈ _ then att else x) (congrFun h.owner a)
  · obtain ⟨hin, hout⟩ := (mem_take hperm h.separate l e).mp he
    exact (if_neg hout).trans (h.owned l e hin)

theorem isHigh_eq (h : InMemory s m) : m.ev.isHigh = isHigh s.hdr := by
  funext e
  exact congrArg (fun hdr : ℕ → EventHeader => decide ((hdr e).priority = .high)) h.hdr

theorem small (h : InMemory s m) (ps : ℕ) :
    (m.pl (.output ps)).lasthigh ≤ (s.list (.output ps)).length :=
  (h.lasthigh ps).trans_le (h.highs ps)

/-- What a write leaves, be it `et_station_write` or `et_station_nwrite`. -/
theorem wrote (h : InMemory s m) {prog : Prog OutMem Ret} (new : s.Unlisted pe)
    (hdone : WriteDone ((outputMem ps).view m) (s.list (.output ps)) pe
      (pe.length ≤ cfg.nevents - ((outputMem ps).view m).pl.cnt)
      (value prog ((outputMem ps).view m)) (final prog ((outputMem ps).view m))) :
    InMemory (s.stationNwrite cfg ps pe).2 (final ((outputMem ps).zoom prog) m) := by
  have hcnt : ((outputMem ps).view m).pl.cnt = (s.list (.output ps)).length := (h.isList _).cnt_eq
  rw [Part.final_zoom]
  rw [hcnt] at hdone
  by_cases hroom : pe.length ≤ cfg.nevents - (s.list (.output ps)).length
  · obtain ⟨-, ht, hstart⟩ := hdone.1 hroom
    have hlist := ht.isList
    have hhigh := ht.lasthigh_eq
    have hisHigh : ((outputMem ps).view m).ev.isHigh = isHigh s.hdr := h.isHigh_eq
    have hlast : ((outputMem ps).view m).pl.lasthigh = s.lasthigh ps := h.lasthigh ps
    rw [hisHigh, hlast] at hlist hhigh
    have hputs : Puts s ({ s.setList (.output ps)
        (putEvents (isHigh s.hdr) (s.lasthigh ps, s.list (.output ps)) pe).2 with
          lasthigh := Function.update s.lasthigh ps
            (putEvents (isHigh s.hdr) (s.lasthigh ps, s.list (.output ps)) pe).1 }.give pe etSys)
        (.output ps) pe :=
      ⟨⟨_, putEvents_perm, rfl⟩, fun _ => rfl, rfl⟩
    obtain ⟨hseparate, howned⟩ := h.puts new hputs
    rw [stationNwrite_room hroom]
    refine h.output new rfl rfl hlist ht.frame.next ?_ (ht.frame.hdr.trans h.hdr) hhigh hstart
      hseparate howned (putEvents_le (h.highs ps))
    funext a
    by_cases ha : a ∈ pe
    · exact (ht.owned a ha).trans (if_pos ha).symm
    · exact (ht.frame.owner a ha).trans ((congrFun h.owner a).trans (if_neg ha).symm)
  · obtain ⟨-, ht⟩ := hdone.2 hroom
    rw [ht, (outputMem ps).put_view, stationNwrite_full hroom]
    exact h

/-- What a dump leaves, be it `et_station_dump` or `et_station_ndump`. -/
theorem dumped (h : InMemory s m) {prog : Prog InMem Ret} (new : s.Unlisted pe)
    (hdone : DumpDone ((inputMem 0).view m) (s.list (.input 0)) pe
      (pe.length ≤ cfg.nevents - ((inputMem 0).view m).pl.cnt)
      (value prog ((inputMem 0).view m)) (final prog ((inputMem 0).view m))) :
    InMemory (s.stationNdump cfg pe).2 (final ((inputMem 0).zoom prog) m) := by
  have hcnt : ((inputMem 0).view m).pl.cnt = (s.list (.input 0)).length := (h.isList _).cnt_eq
  rw [Part.final_zoom]
  rw [hcnt] at hdone
  by_cases hroom : pe.length ≤ cfg.nevents - (s.list (.input 0)).length
  · obtain ⟨-, ht, hstart⟩ := hdone.1 hroom
    have hputs : Puts s ((s.setList (.input 0) (s.list (.input 0) ++ pe)).give pe etSys)
        (.input 0) pe := ⟨⟨_, .refl _, rfl⟩, fun _ => rfl, rfl⟩
    obtain ⟨hseparate, howned⟩ := h.puts new hputs
    rw [stationNdump_room hroom]
    refine h.input new rfl rfl ht.isList ht.frame.next ?_ (ht.frame.hdr.trans h.hdr)
      ⟨ht.frame.first.trans (h.closedIn 0).1, hstart⟩ hseparate howned
    funext a
    by_cases ha : a ∈ pe
    · exact (ht.owned a ha).trans (if_pos ha).symm
    · exact (ht.frame.owner a ha).trans ((congrFun h.owner a).trans (if_neg ha).symm)
  · obtain ⟨-, ht⟩ := hdone.2 hroom
    rw [ht, (inputMem 0).put_view, stationNdump_full hroom]
    exact h

/-- What a restore into any list leaves, when the list has room for some events. -/
theorem wp_restored (h : InMemory s m) {F : Type} {v : ListMem F} (hev : v.ev = m.ev)
    (hpl : v.pl = m.pl l) (new : s.Unlisted pe) (hroom : ¬ cfg.nevents ≤ (s.list l).length) :
    ∃ xs, (s.restore cfg l pe).2.list = Function.update s.list l xs ∧
      (s.restore cfg l pe).2.lasthigh = s.lasthigh ∧ (s.list l).length ≤ xs.length ∧
      (Separate (s.restore cfg l pe).2.list ∧
        ∀ l', ∀ e ∈ (s.restore cfg l pe).2.list l', (s.restore cfg l pe).2.owner e = etSys) ∧
      wp (restore cfg.nevents pe) (fun _ => True) (fun _ t => IsList t.ev t.pl xs ∧
        (∀ a, a ∉ s.list l ++ pe → t.ev.next a = m.ev.next a) ∧
        t.ev.owner = (s.restore cfg l pe).2.owner ∧ t.ev.hdr = m.ev.hdr ∧ t.fix = v.fix ∧
        t.pl.lasthigh = (m.pl l).lasthigh) v := by
  have hlist : IsList v.ev v.pl (s.list l) := by
    rw [hev, hpl]
    exact h.isList l
  set n := cfg.nevents - (s.list l).length with hn
  have hput : (Post.restore pe).put s.hdr cfg.nevents (s.list l) =
      (mergeEvents (isHigh s.hdr) (s.list l) (pe.take n), true) := if_neg hroom
  have hgive : ∀ e, (s.restore cfg l pe).2.owner e = if e ∈ pe.take n then etSys else s.owner e := by
    intro e
    unfold EventSystem.restore
    dsimp only
    rw [min_comm, ← List.take_eq_take_min]
    rfl
  have hnew : s.Unlisted (pe.take n) :=
    ⟨new.nodup.sublist (List.take_sublist n pe), fun e he => new.out e (List.mem_of_mem_take he)⟩
  have hlistEq : (s.restore cfg l pe).2.list =
      Function.update s.list l (mergeEvents (isHigh s.hdr) (s.list l) (pe.take n)) := by
    unfold EventSystem.restore
    rw [hput]
    rfl
  have hputs : Puts s (s.restore cfg l pe).2 l (pe.take n) :=
    ⟨⟨_, mergeEvents_perm, hlistEq⟩, hgive, rfl⟩
  refine ⟨_, hlistEq, rfl, ?_, h.puts hnew hputs, ?_⟩
  · rw [length_mergeEvents]
    exact Nat.le_add_right _ _
  have hroom' : v.pl.cnt < cfg.nevents := by
    rw [hlist.cnt_eq]
    exact not_le.mp hroom
  rw [← wp_congr (restore_take pe hroom').1, hlist.cnt_eq, ← hn]
  by_cases hnil : pe.take n = []
  · -- there are no events to restore
    have hskip : restore cfg.nevents [] v = (pure (.ok, 0) : Prog (ListMem F) (Ret × ℕ)) v := by
      unfold restore
      rw [get_bind_apply, if_neg (by rwa [hlist.cnt_eq]), List.take_nil]
    have howner : (s.restore cfg l pe).2.owner = s.owner := by
      funext e
      rw [hgive, hnil]
      exact if_neg List.not_mem_nil
    have hmerge : mergeEvents (isHigh s.hdr) (s.list l) [] = s.list l := by
      unfold mergeEvents
      split
      case isTrue hx => exact hx.symm
      case isFalse => simp
    rw [hnil, wp_congr hskip, wp_pure, hmerge, howner, hev, hpl]
    exact ⟨trivial, h.isList l, fun _ _ => rfl, h.owner, rfl, rfl, rfl⟩
  · have hlen : (pe.take n).length ≤ n := List.length_take_le n pe
    refine wp_mono (wp_restore hlist hnil hnew.nodup (fun a ha => hnew.out a ha l) (by omega))
      (fun _ _ => trivial) ?_
    rintro r t - ⟨-, ht⟩
    have hisList := ht.isList
    rw [hev, h.isHigh_eq] at hisList
    refine ⟨hisList, fun a ha => ?_, ?_, ht.hdr.trans (congrArg Events.hdr hev), ht.rest.1,
      ht.rest.2.1.trans (congrArg EtList.lasthigh hpl)⟩
    · rw [ht.next a fun hin => ha ?_, hev]
      exact (List.mem_append.mp hin).elim (List.mem_append_left _) fun hin =>
        List.mem_append_right _ (List.mem_of_mem_take hin)
    · funext a
      rw [ht.owner, hgive, hev, h.owner]

/-- A restore into a full list does nothing. -/
theorem restore_full (h : InMemory s m) {F : Type} {v : ListMem F} (hpl : v.pl = m.pl l)
    (hfull : cfg.nevents ≤ (s.list l).length) :
    (s.restore cfg l pe).2 = s ∧ final (restore cfg.nevents pe) v = v := by
  have hput : (Post.restore pe).put s.hdr cfg.nevents (s.list l) = (s.list l, false) := if_pos hfull
  have hcnt : v.pl.cnt = (s.list l).length := by
    rw [hpl]
    exact (h.isList l).cnt_eq
  constructor
  · unfold EventSystem.restore
    rw [hput, Nat.sub_eq_zero_of_le hfull]
    dsimp only
    rw [Nat.min_zero, List.take_zero, give_nil]
    unfold setList
    simp
  · exact final_congr (EventTransfer.restore_full pe (by rwa [hcnt])).1

theorem restoreIn (h : InMemory s m) (new : s.Unlisted pe) :
    InMemory (s.restore cfg (.input ps) pe).2
      (final ((inputMem ps).zoom (restore cfg.nevents pe)) m) := by
  rw [Part.final_zoom]
  by_cases hfull : cfg.nevents ≤ (s.list (.input ps)).length
  · obtain ⟨hs, ht⟩ := @restore_full s m cfg (.input ps) pe h _ ((inputMem ps).view m) rfl hfull
    rw [hs, ht, (inputMem ps).put_view]
    exact h
  · obtain ⟨xs, hlist, hlast, -, ⟨hseparate, howned⟩, -, hisList, hnext, howner, hhdr, hfix, -⟩ :=
      @wp_restored s m cfg (.input ps) pe h _ ((inputMem ps).view m) rfl rfl new hfull
    refine h.input new hlist hlast hisList hnext howner (hhdr.trans h.hdr) ?_ hseparate howned
    rw [hfix]
    exact h.closedIn ps

theorem restoreOut (h : InMemory s m) (new : s.Unlisted pe) :
    InMemory (s.restore cfg (.output ps) pe).2
      (final ((outputMem ps).zoom (restore cfg.nevents pe)) m) := by
  rw [Part.final_zoom]
  by_cases hfull : cfg.nevents ≤ (s.list (.output ps)).length
  · obtain ⟨hs, ht⟩ := @restore_full s m cfg (.output ps) pe h _ ((outputMem ps).view m) rfl hfull
    rw [hs, ht, (outputMem ps).put_view]
    exact h
  · obtain ⟨xs, hlist, hlast, hle, ⟨hseparate, howned⟩, -, hisList, hnext, howner, hhdr, hfix,
      hcount⟩ := @wp_restored s m cfg (.output ps) pe h _ ((outputMem ps).view m) rfl rfl new hfull
    refine h.output new hlist (hlast.trans (Function.update_eq_self ps _).symm) hisList hnext howner
      (hhdr.trans h.hdr) (hcount.trans (h.lasthigh ps)) ?_ hseparate howned
      ((h.highs ps).trans hle)
    rw [hfix]
    exact h.closedOut ps

theorem llistRead (h : InMemory s m) (me : ℕ) :
    InMemory (s.emptied me) (final ((outputMem me).zoom etLlistRead) m) := by
  obtain ⟨-, -, hlist, hev, hlast, hsame, hfix⟩ :=
    @wp_etLlistRead _ ((outputMem me).view m) (h.isList (.output me))
  rw [Part.final_zoom]
  have hperm : (s.list (.output me) ++ []).Perm (s.list (.output me)) := by
    rw [List.append_nil]
  refine h.output (k := 0) ⟨List.nodup_nil, fun _ he => absurd he List.not_mem_nil⟩ rfl rfl hlist
    (fun a _ => ?_) ?_ ?_ ?_ ?_ (h.separate.take hperm) (fun l e he => ?_) (Nat.zero_le _)
  · rw [hev]
    rfl
  · rw [hev]
    exact h.owner
  · rw [hev]
    exact h.hdr
  · by_cases hnil : s.list (.output me) = []
    · rw [hsame hnil]
      have hle := h.highs me
      rw [hnil] at hle
      exact (h.lasthigh me).trans (Nat.le_zero.mp hle)
    · exact hlast hnil
  · rw [hfix]
    exact h.closedOut me
  · exact h.owned l e ((mem_take hperm h.separate l e).mp he).1

/-- Events of the system that a conductor puts into an input list. -/
theorem conducted (h : InMemory s m) {α : Type} {prog : Prog InMem α} {t : InMem}
    (ht : t = final prog ((inputMem ps).view m)) (new : s.Unlisted pe)
    (owned : ∀ e ∈ pe, s.owner e = etSys) (hperm : xs.Perm (s.list (.input ps) ++ pe))
    (isList : IsList t.ev t.pl xs)
    (next : ∀ a, a ∉ s.list (.input ps) ++ pe → t.ev.next a = m.ev.next a)
    (owner : t.ev.owner = m.ev.owner) (hdr : t.ev.hdr = m.ev.hdr) (fix : t.fix = m.fixIn ps) :
    InMemory (s.setList (.input ps) xs) (final ((inputMem ps).zoom prog) m) := by
  rw [Part.final_zoom, ← ht]
  refine h.input new rfl rfl isList next (owner.trans h.owner) (hdr.trans h.hdr) ?_
    (h.separate.put new.nodup (fun l e he => new.out e he l) hperm) fun l e he => ?_
  · rw [fix]
    exact h.closedIn ps
  · have hgive : Puts s ((s.setList (.input ps) xs).give pe etSys) (.input ps) pe :=
      ⟨⟨xs, hperm, rfl⟩, fun _ => rfl, rfl⟩
    exact ((hgive.mem l e).mp he).elim (h.owned l e) fun hin => owned e hin.2

end InMemory

/-- **After each routine the headers are right again.** -/
theorem InMemory.routine {p q : EventSystem × SharedLists} (h : InMemory p.1 p.2)
    (hrun : Routine cfg p q) : InMemory q.1 q.2 := by
  cases hrun with
  | fields m list lasthigh owner =>
      exact ⟨rfl, rfl, fun l => by
        rw [list]
        exact (h.isList l).congr fun _ _ => rfl, fun r => by
        rw [lasthigh]
        exact h.lasthigh r, h.closedIn, h.closedOut, by
        rw [list]
        exact h.separate, fun l e he => by
        rw [list] at he
        exact (owner l e he).trans (h.owned l e he), fun r => by
        rw [lasthigh, list]
        exact h.highs r⟩
  | read m att some wanted => exact h.read att some wanted
  | write m ps new =>
      exact h.wrote new (wp_stationWrite (h.isList (.output ps)) (h.closedOut ps) (h.small ps)
        (new.out _ List.mem_cons_self _)).2
  | nwrite m ps new =>
      exact h.wrote new (wp_stationNwrite (h.isList (.output ps)) (h.closedOut ps) (h.small ps)
        new.nodup fun a ha => new.out a ha _).2
  | dump m new =>
      exact h.dumped new (wp_stationDump (h.isList (.input 0)) (h.closedIn 0).2
        (new.out _ List.mem_cons_self _)).2
  | ndump m new =>
      exact h.dumped new (wp_stationNdump (h.isList (.input 0)) (h.closedIn 0).2 new.nodup
        fun a ha => new.out a ha _).2
  | restoreIn m ps new => exact h.restoreIn new
  | restoreOut m ps new => exact h.restoreOut new
  | llistRead s m me => exact h.llistRead me
  | @llistWrite s m ps pe new owned some room =>
      obtain ⟨-, -, ht⟩ := @wp_etLlistWrite _ ((inputMem ps).view m) _ _ cfg.nevents
        (h.isList (.input ps)) some new.nodup (fun a ha => new.out a ha _) room
      have hisList := ht.isList
      have hisHigh : ((inputMem ps).view m).ev.isHigh = isHigh s.hdr := h.isHigh_eq
      rw [hisHigh] at hisList
      exact h.conducted rfl new owned (llistWrite_perm ..) hisList ht.next ht.owner ht.hdr ht.rest.1
  | llistWriteGc m new owned some room =>
      obtain ⟨-, -, hisList, hhdr, howner, hnext, hfix⟩ := @wp_etLlistWriteGc _ _
        ((inputMem 0).view m) cfg.nevents (h.isList (.input 0)) some new.nodup
        (fun a ha => new.out a ha _) room
      exact h.conducted rfl new owned (.refl _) hisList hnext howner hhdr hfix

end OneRoutine

/-! ## One step -/

namespace EventSystem

variable {s t u v : EventSystem} {cfg : EventConfig} {back : ListName → Priority → Prop}
  {me : ℕ} {given : ℕ → List ℕ}

/-- **Routines take the system from one state to another**, whatever memory it is held by. -/
def Performs (cfg : EventConfig) (s t : EventSystem) : Prop :=
  ∀ m, ∃ m', ReflTransGen (Routine cfg) (s, m) (t, m')

theorem Performs.refl (s : EventSystem) : Performs cfg s s := fun m => ⟨m, .refl⟩

theorem Performs.trans (h : Performs cfg s t) (h' : Performs cfg t u) : Performs cfg s u := by
  intro m
  obtain ⟨m₁, hrun₁⟩ := h m
  obtain ⟨m₂, hrun₂⟩ := h' m₁
  exact ⟨m₂, hrun₁.trans hrun₂⟩

theorem Performs.fields (list : t.list = s.list) (lasthigh : t.lasthigh = s.lasthigh)
    (owner : ∀ l, ∀ e ∈ s.list l, t.owner e = s.owner e) : Performs cfg s t :=
  fun m => ⟨_, .single (.fields m list lasthigh owner)⟩

theorem Quiet.performs (h : Quiet s t) : Performs cfg s t := .fields h.list h.lasthigh h.owner

/-- A read that finds nothing to take leaves all as it was. -/
theorem takes_performs (r : StationRead) (ps : ℕ) (att : ℤ) :
    Performs cfg s (s.takes r ps att) := by
  intro m
  have hnothing : r.handOut s.hdr (s.list (.input ps)) = ([], s.list (.input ps)) →
      s.takes r ps att = s := by
    intro hout
    unfold takes
    rw [hout, give_nil]
    unfold setList
    simp
  by_cases hnil : s.list (.input ps) = []
  · refine ⟨m, ?_⟩
    rw [hnothing]
    unfold StationRead.handOut
    rw [hnil]
    cases min r.num ([] : List ℕ).length <;> rfl
  · by_cases hnum : r.num = 0
    · refine ⟨m, ?_⟩
      rw [hnothing]
      unfold StationRead.handOut
      rw [hnum, Nat.zero_min, takeWhere_zero]
    · exact ⟨_, .single (.read m att hnil hnum)⟩

/-- **The writes of a pass**, one station after the other. -/
theorem writes_perform (hgiven : Separate given) {order : List ℕ} (hnodup : order.Nodup)
    (hne : ∀ ps ∈ order, given ps ≠ []) (hnew : ∀ ps ∈ order, v.Unlisted (given ps))
    (howned : ∀ ps ∈ order, ∀ e ∈ given ps, v.owner e = etSys)
    (hroom : ∀ ps ∈ order, (v.list (.input ps)).length + (given ps).length ≤ cfg.nevents) :
    ∃ w, Performs cfg v w ∧ w.owner = v.owner ∧ w.hdr = v.hdr ∧ w.lasthigh = v.lasthigh ∧
      (∀ ps ∈ order, w.list (.input ps) =
        llistWrite (isHigh v.hdr) (v.list (.input ps)) (given ps)) ∧
      ∀ l, (∀ ps ∈ order, l ≠ .input ps) → w.list l = v.list l := by
  induction order generalizing v with
  | nil =>
      exact ⟨v, .refl v, rfl, rfl, rfl, fun _ h => absurd h List.not_mem_nil, fun _ _ => rfl⟩
  | cons ps order ih =>
      obtain ⟨hps, hrest⟩ := List.nodup_cons.mp hnodup
      rw [List.forall_mem_cons] at hne hnew howned hroom
      set x := v.setList (.input ps) (llistWrite (isHigh v.hdr) (v.list (.input ps)) (given ps))
      have hother : ∀ l, l ≠ .input ps → x.list l = v.list l := fun l hl => Function.update_of_ne hl ..
      have hin : ∀ q ∈ order, ListName.input q ≠ .input ps := by
        rintro q hq heq
        exact hps (ListName.input.inj heq ▸ hq)
      -- what another station is given is not in this list
      have hnew' : ∀ q ∈ order, x.Unlisted (given q) := by
        refine fun q hq => (hnew.2 q hq).after rfl fun e he hmem => ?_
        rcases List.mem_append.mp ((llistWrite_perm ..).mem_iff.mp hmem) with hmem | hmem
        · exact (hnew.2 q hq).out e he _ hmem
        · exact hps (hgiven.once q ps e he hmem ▸ hq)
      obtain ⟨w, hw, howner, hhdr, hlast, hlists, hsame⟩ := @ih x hrest hne.2 hnew' howned.2
        fun q hq => by
          rw [hother _ (hin q hq)]
          exact hroom.2 q hq
      refine ⟨w, .trans (fun m => ⟨_, .single (.llistWrite m ps hnew.1 howned.1 hne.1 hroom.1)⟩) hw,
        howner, hhdr, hlast, ?_, fun l hl => ?_⟩
      · rw [List.forall_mem_cons]
        refine ⟨?_, fun q hq => ?_⟩
        · rw [hsame _ fun q hq => (hin q hq).symm]
          exact Function.update_self ..
        · rw [hlists q hq, hother _ (hin q hq)]
          rfl
      · rw [List.forall_mem_cons] at hl
        rw [hsame l hl.2, hother l hl.1]

/-- **The write of GRAND_CENTRAL**, where it is given anything. -/
theorem writeGc_performs {pe : List ℕ} (hnew : v.Unlisted pe) (howned : ∀ e ∈ pe, v.owner e = etSys)
    (hroom : (v.list (.input 0)).length + pe.length ≤ cfg.nevents) :
    ∃ w, Performs cfg v w ∧ w.owner = v.owner ∧ w.lasthigh = v.lasthigh ∧
      w.list (.input 0) = v.list (.input 0) ++ pe ∧
      ∀ l, l ≠ .input 0 → w.list l = v.list l := by
  by_cases hnil : pe = []
  case pos => exact ⟨v, .refl v, rfl, rfl, by rw [hnil, List.append_nil], fun _ _ => rfl⟩
  case neg =>
    refine ⟨v.setList (.input 0) (v.list (.input 0) ++ pe),
      fun m => ⟨_, .single (.llistWriteGc m hnew howned hnil hroom)⟩, rfl, rfl, ?_,
      fun l hl => Function.update_of_ne hl ..⟩
    exact Function.update_self (.input 0) (v.list (.input 0) ++ pe) v.list

/-- The stations that are given something are finitely many. -/
theorem DealsOnce.stations {batch : List ℕ} (h : DealsOnce batch given) :
    ∃ order : List ℕ, order.Nodup ∧ ∀ ps, ps ∈ order ↔ ps ≠ 0 ∧ given ps ≠ [] := by
  classical
  have hplace : ∀ e, ∃ ps, e ∈ batch → e ∈ given ps := by
    intro e
    by_cases he : e ∈ batch
    · obtain ⟨ps, hps⟩ := (h.all e).mp he
      exact ⟨ps, fun _ => hps⟩
    · exact ⟨0, fun hin => absurd hin he⟩
  choose place hplace using hplace
  refine ⟨((batch.map place).filter fun ps => ps ≠ 0).dedup, List.nodup_dedup _, fun ps => ?_⟩
  rw [List.mem_dedup, List.mem_filter, List.mem_map, decide_eq_true_eq, and_comm]
  refine and_congr_right fun _ => ⟨?_, fun hne => ?_⟩
  · rintro ⟨e, he, rfl⟩
    exact List.ne_nil_of_mem (hplace e he)
  · obtain ⟨e, he⟩ := List.exists_mem_of_ne_nil _ hne
    have hbatch := (h.all e).mpr ⟨ps, he⟩
    exact ⟨e, hbatch, h.separate.once _ _ e (hplace e hbatch) he⟩

/-- **A pass**: the output list is read, stations get events, and GRAND_CENTRAL gets the rest. -/
theorem Passes.performs (hpass : Passes s t me given) (hseparate : Separate s.list)
    (hlisted : ∀ l, ∀ e ∈ s.list l, s.owner e = etSys ∧ e < cfg.nevents) : Performs cfg s t := by
  have hbatch : ∀ ps, ∀ e ∈ given ps, e ∈ s.list (.output me) :=
    fun ps e he => (hpass.deals.all e).mpr ⟨ps, he⟩
  have hperm : (s.list (.output me) ++ []).Perm (s.list (.output me)) := by rw [List.append_nil]
  have hempty : ∀ l, (s.emptied me).list l = if l = .output me then [] else s.list l :=
    fun l => Function.update_apply ..
  have hinput : ∀ ps, (s.emptied me).list (.input ps) = s.list (.input ps) := by
    intro ps
    rw [hempty, if_neg ListName.noConfusion]
  have hnew : ∀ ps, (s.emptied me).Unlisted (given ps) := fun ps =>
    ⟨hpass.deals.separate.nodup ps, fun e he l hl =>
      ((mem_take hperm hseparate l e).mp hl).2 (hbatch ps e he)⟩
  have howned : ∀ ps, ∀ e ∈ given ps, s.owner e = etSys := fun ps e he =>
    (hlisted _ e (hbatch ps e he)).1
  have hroom : ∀ ps, (s.list (.input ps)).length + (given ps).length ≤ cfg.nevents := by
    intro ps
    refine length_add_le (hseparate.nodup _) (hpass.deals.separate.nodup ps) (fun e he hin => ?_)
      fun e he => ?_
    · exact ListName.noConfusion (hseparate.once _ _ e hin (hbatch ps e he))
    · exact (List.mem_append.mp he).elim (fun he => (hlisted _ e he).2) fun he =>
        (hlisted _ e (hbatch ps e he)).2
  obtain ⟨order, hnodup, horder⟩ := DealsOnce.stations hpass.deals
  obtain ⟨w, hw, howner, hhdr, hlast, hlists, hsame⟩ := @writes_perform (s.emptied me) cfg given
    hpass.deals.separate order hnodup (fun ps hps => ((horder ps).mp hps).2) (fun ps _ => hnew ps)
    (fun ps _ => howned ps) fun ps _ => by
      rw [hinput]
      exact hroom ps
  have hcentral : w.list (.input 0) = s.list (.input 0) := by
    rw [hsame _ fun ps hps heq => ((horder ps).mp hps).1 (ListName.input.inj heq).symm, hinput]
  have hread : Performs cfg s (s.emptied me) := fun m => ⟨_, .single (.llistRead s m me)⟩
  have hinputs : ∀ ps, ps ≠ 0 → w.list (.input ps) =
      llistWrite (isHigh s.hdr) (s.list (.input ps)) (given ps) := by
    intro ps hps
    by_cases hnil : given ps = []
    · rw [hsame _ fun q hq heq => ((horder q).mp hq).2 (ListName.input.inj heq ▸ hnil), hinput, hnil]
      rfl
    · rw [hlists ps ((horder ps).mpr ⟨hps, hnil⟩), hinput]
      rfl
  have houtputs : ∀ ps, w.list (.output ps) = if ps = me then [] else s.list (.output ps) := by
    intro ps
    rw [hsame _ fun q _ => ListName.noConfusion, hempty]
    exact if_congr ⟨ListName.output.inj, congrArg _⟩ rfl rfl
  -- what GRAND_CENTRAL is given is in none of the lists that were written
  have hwnew : w.Unlisted (given 0) := by
    refine ⟨(hnew 0).nodup, fun e he l hl => ?_⟩
    by_cases hin : ∃ ps ∈ order, l = .input ps
    · obtain ⟨ps, hps, rfl⟩ := hin
      rw [hlists ps hps] at hl
      rcases List.mem_append.mp ((llistWrite_perm ..).mem_iff.mp hl) with hl | hl
      · exact (hnew 0).out e he _ hl
      · exact ((horder ps).mp hps).1 (hpass.deals.separate.once ps 0 e hl he)
    · rw [hsame l fun ps hps heq => hin ⟨ps, hps, heq⟩] at hl
      exact (hnew 0).out e he l hl
  obtain ⟨x, hx, hxowner, hxlast, hxcentral, hxsame⟩ := writeGc_performs hwnew (fun e he => by
    rw [howner]
    exact howned 0 e he) (by
    rw [hcentral]
    exact hroom 0)
  rw [hcentral] at hxcentral
  refine ((hread.trans hw).trans hx).trans (.fields ?_ ?_ fun l e _ => ?_)
  · funext l
    cases l with
    | input ps =>
        rcases eq_or_ne ps 0 with rfl | hps
        · rw [hpass.grandCentral, hxcentral]
        · rw [hpass.input ps hps, hxsame _ fun heq => hps (ListName.input.inj heq), hinputs ps hps]
    | output ps => rw [hpass.output, hxsame _ ListName.noConfusion, houtputs]
  · rw [hpass.lasthigh, hxlast, hlast]
    rfl
  · rw [hpass.owner, hxowner, howner]
    rfl

theorem Shift.performs (h : Shift cfg s t) (hseparate : Separate s.list)
    (hlisted : ∀ l, ∀ e ∈ s.list l, s.owner e = etSys ∧ e < cfg.nevents) : Performs cfg s t := by
  cases h with
  | none => exact .refl s
  | take r ps att => exact takes_performs r ps att
  | write ps new => exact fun m => ⟨_, .single (.nwrite m ps new)⟩
  | dump new => exact fun m => ⟨_, .single (.ndump m new)⟩
  | pass hpass => exact hpass.performs hseparate hlisted

theorem Add.performs (h : Add cfg back s t) : Performs cfg s t := by
  cases h with
  | quiet h => exact h.performs
  | write ps new => exact fun m => ⟨_, .single (.nwrite m ps new)⟩
  | dump new => exact fun m => ⟨_, .single (.ndump m new)⟩
  | restoreIn ps _ new => exact fun m => ⟨_, .single (.restoreIn m ps new)⟩
  | restoreOut ps new => exact fun m => ⟨_, .single (.restoreOut m ps new)⟩

/-- **Every step of the system is made of the routines.** -/
theorem Effect.performs (h : Effect cfg back s t) (hall : AllInPlace cfg s) : Performs cfg s t := by
  cases h with
  | shift h =>
      obtain ⟨u, v, hbefore, hshift, hafter⟩ := h
      refine (hbefore.performs.trans (hshift.performs ?_ fun l e he => ?_)).trans hafter.performs
      · rw [hbefore.list]
        exact hall.separate
      · rw [hbefore.list] at he
        rw [hbefore.owner l e he]
        exact hall.listed l e he
  | @detach u v ps hbefore hflush hafter =>
      have htakes : Performs cfg u v := by
        rcases hflush with rfl | ⟨-, r, att, rfl⟩
        · exact .refl v
        · exact takes_performs r ps att
      refine (hbefore.performs.trans htakes).trans ?_
      clear htakes hflush hbefore
      induction hafter with
      | refl => exact .refl v
      | tail _ h ih => exact ih.trans h.performs

end EventSystem

open EventSystem

theorem EventStep.performs {cfg : EventConfig} {s t : EventSystem} (h : AllInPlace cfg s)
    (a : EventStep) (ha : a.KeepsEvents cfg s) (hfits : a.Fits s)
    (hnext : a.next cfg s = some t) : Performs cfg s t := by
  by_cases hown : a.StoresToOwned s
  · exact (a.effect h ha hfits hown hnext).performs h
  · -- headers of events in lists are stored to
    cases a with
    | setFields e priority datastatus length control =>
        obtain rfl := Option.some.inj hnext
        exact .fields rfl rfl fun _ _ _ => rfl
    | _ => exact absurd trivial hown

/-! ## Runs -/

/-- The lists as `et_init_station` leaves them. -/
structure SharedLists.Blank (m : SharedLists) : Prop where
  pl : ∀ l, m.pl l = EtList.init
  fixIn : ∀ ps, m.fixIn ps = FixIn.init
  fixOut : ∀ ps, m.fixOut ps = FixOut.init

/-- What `et_init_stats_station` does to a list. -/
def EtList.initStats (pl : EtList) : EtList :=
  { pl with eventsTry := 0, eventsIn := 0, eventsOut := 0 }

/-- "Fill grand_central station input list with all events", in
`et_grandcentral_station_create`. -/
def fillGrandCentral (cfg : EventConfig) : Prog SharedLists PUnit := do
  let _ ← each (fun e => (inputMem 0).zoom (etLlistWriteGc cfg.nevents [e])) (List.range cfg.nevents)
  store fun m => { m with pl := Function.update m.pl (.input 0) (m.pl (.input 0)).initStats }

/-- **The system and the memory that holds it**, as a machine: a step of the system is a step of
the machine with all that routines can do to the memory meanwhile. -/
def storedMachine (cfg : EventConfig) : Machine (EventSystem × SharedLists) EventStep where
  start p := p.1.Fresh cfg ∧ ∃ blank : SharedLists, blank.Blank ∧ blank.ev.owner = p.1.owner ∧
    blank.ev.hdr = p.1.hdr ∧ p.2 = final (fillGrandCentral cfg) blank
  step p a q := a.Fits p.1 ∧ a.next cfg p.1 = some q.1 ∧ ReflTransGen (Routine cfg) p q

/-- A run whose steps lose no event has led to this system and this memory. -/
def StoredAfter (cfg : EventConfig) (s : EventSystem) (m : SharedLists) : Prop :=
  (storedMachine cfg).Reach (fun p a => a.KeepsEvents cfg p.1) (s, m)

/-- The events of GRAND_CENTRAL one after the other. -/
theorem wp_fillGrandCentral {cfg : EventConfig} {blank : SharedLists} (h : blank.Blank) :
    wp (fillGrandCentral cfg) (fun _ => True) (fun _ m =>
      IsList m.ev (m.pl (.input 0)) (List.range cfg.nevents) ∧
      (∀ l, l ≠ .input 0 → m.pl l = EtList.init) ∧ m.ev.owner = blank.ev.owner ∧
      m.ev.hdr = blank.ev.hdr ∧ (∀ ps, m.fixIn ps = FixIn.init) ∧
      ∀ ps, m.fixOut ps = FixOut.init) blank := by
  unfold fillGrandCentral
  rw [wp_bind]
  have hall := @wp_each _ _ _ (fun e => (inputMem 0).zoom (etLlistWriteGc cfg.nevents [e]))
    (fun _ => True) (fun done m => IsList m.ev (m.pl (.input 0)) done ∧
      (∀ l, l ≠ .input 0 → m.pl l = EtList.init) ∧ m.ev.owner = blank.ev.owner ∧
      m.ev.hdr = blank.ev.hdr ∧ (∀ ps, m.fixIn ps = FixIn.init) ∧
      ∀ ps, m.fixOut ps = FixOut.init) Ret.ok (List.range cfg.nevents) [] (List.range cfg.nevents)
    blank rfl ?_ (fun _ _ _ => trivial) ?_
  · refine wp_mono hall (fun _ _ => trivial) ?_
    rintro - m - ⟨-, hlist, hothers, hrest⟩
    rw [wp_store]
    refine ⟨trivial, trivial, ?_, fun l hl => ?_, hrest⟩
    · dsimp only
      rw [Function.update_self]
      exact ⟨hlist.cnt_eq, hlist.spans⟩
    · dsimp only
      rw [Function.update_of_ne hl]
      exact hothers l hl
  · refine ⟨?_, fun l _ => h.pl l, rfl, rfl, h.fixIn, h.fixOut⟩
    rw [h.pl]
    exact .init _
  · rintro done e m hpre ⟨hlist, hothers, howner, hhdr, hfixIn, hfixOut⟩
    have hnodup : (done ++ [e]).Nodup := List.nodup_range.sublist hpre.sublist
    have hlen : (done ++ [e]).length ≤ cfg.nevents := by
      rw [← @List.length_range cfg.nevents]
      exact hpre.length_le
    rw [List.length_append] at hlen
    have hnew : ∀ a ∈ [e], a ∉ done := fun a ha hin =>
      (List.nodup_append.mp hnodup).2.2 a hin a ha rfl
    rw [Part.wp_zoom]
    refine wp_mono (@wp_etLlistWriteGc done [e] ((inputMem 0).view m) _ hlist
      (List.cons_ne_nil e []) (List.nodup_singleton e) hnew hlen) (fun _ _ => trivial) ?_
    rintro r t - ⟨hr, hisList, hhdr', howner', -, hfix⟩
    refine ⟨hr, ?_, fun l hl => ?_, howner'.trans howner, hhdr'.trans hhdr, fun ps => ?_, hfixOut⟩
    · show IsList t.ev (Function.update m.pl (.input 0) t.pl (.input 0)) _
      rw [Function.update_self]
      exact hisList
    · show Function.update m.pl (.input 0) t.pl l = _
      rw [Function.update_of_ne hl]
      exact hothers l hl
    · show Function.update m.fixIn 0 t.fix ps = _
      rcases eq_or_ne ps 0 with rfl | hps
      · rw [Function.update_self, hfix]
        exact hfixIn 0
      · rw [Function.update_of_ne hps]
        exact hfixIn ps

section Runs

variable {cfg : EventConfig} {s : EventSystem} {m : SharedLists}

theorem EventSystem.Fresh.stored (h : s.Fresh cfg) {blank : SharedLists} (hblank : blank.Blank)
    (howner : blank.ev.owner = s.owner) (hhdr : blank.ev.hdr = s.hdr) :
    InMemory s (final (fillGrandCentral cfg) blank) := by
  obtain ⟨-, hcentral, hothers, howner', hhdr', hfixIn, hfixOut⟩ := @wp_fillGrandCentral cfg _ hblank
  refine ⟨howner'.trans howner, hhdr'.trans hhdr, fun l => ?_, fun ps => ?_, fun ps => ?_,
    fun ps => ?_, h.allInPlace.separate, fun l e he => (h.allInPlace.listed l e he).1, fun ps => ?_⟩
  · by_cases hl : l = .input 0
    · rw [hl, h.grandCentral]
      exact hcentral
    · rw [h.empty l hl, hothers l hl]
      exact .init _
  · rw [hothers _ ListName.noConfusion, h.lasthigh]
    rfl
  · rw [hfixIn]
    exact ⟨rfl, rfl⟩
  · rw [hfixOut]
    rfl
  · rw [h.lasthigh]
    exact Nat.zero_le _

/-- **Whatever the routines have done on the way**, the headers describe the contents. -/
theorem StoredAfter.stored (h : StoredAfter cfg s m) : InMemory s m := by
  refine @Machine.Reach.invariant _ _ _ _ _ (fun p => InMemory p.1 p.2) h ?_ ?_
  · rintro ⟨s, m⟩ ⟨hfresh, blank, hblank, howner, hhdr, rfl⟩
    exact hfresh.stored hblank howner hhdr
  · rintro p a q hp - ⟨-, -, hrun⟩
    induction hrun with
    | refl => exact hp
    | tail _ hone ih => exact ih.routine hone

/-- Every run of the system is the run of a memory. -/
theorem exists_storedAfter (h : (eventMachine cfg).Reach (fun s a => a.KeepsEvents cfg s) s) :
    ∃ m, StoredAfter cfg s m := by
  induction h with
  | @start s hs =>
      exact ⟨_, .start ⟨hs, ⟨⟨fun _ => none, s.owner, s.hdr⟩, fun _ => EtList.init,
        fun _ => FixIn.init, fun _ => FixOut.init⟩, ⟨fun _ => rfl, fun _ => rfl, fun _ => rfl⟩, rfl,
        rfl, rfl⟩⟩
  | @step s t a hreach ok hstep ih =>
      obtain ⟨m, hm⟩ := ih
      obtain ⟨m', hrun⟩ := a.performs (allInPlace_of_reach hreach) ok hstep.1 hstep.2 m
      exact ⟨m', .step a hm ok ⟨hstep.1, hstep.2, hrun⟩⟩

/-- **Every event is in one place**, the lists hold nothing but events, and in memory each list's
header describes just the events of the list: its count is their number, and they are the ones from
its first event to its last.  So it is in every state reached by steps that lose no event. -/
theorem events_inOnePlace (h : (eventMachine cfg).Reach (fun s a => a.KeepsEvents cfg s) s) :
    (∀ e < cfg.nevents, s.InOnePlace e) ∧ (∀ l, ∀ e ∈ s.list l, e < cfg.nevents) ∧
      (∃ m, StoredAfter cfg s m) ∧
        ∀ m, StoredAfter cfg s m → m.ev.owner = s.owner ∧
          ∀ l, IsList m.ev (m.pl l) (s.list l) := by
  have hall := allInPlace_of_reach h
  exact ⟨fun e he => hall.inOnePlace he, fun l e he => (hall.listed l e he).2, exists_storedAfter h,
    fun m hm => ⟨hm.stored.owner, hm.stored.isList⟩⟩

end Runs

/-- An event is made, put, and given to GRAND_CENTRAL by a conductor, behind the other one. -/
theorem events_inOnePlace_example :
    ∃ s m, StoredAfter freshConfig s m ∧ s.list (.input 0) = [1, 0] ∧ s.InOnePlace 0 ∧
      s.InOnePlace 1 ∧ (m.pl (.input 0)).cnt = 2 ∧ (m.pl (.input 0)).firstevent = some 1 ∧
        m.ev.next 1 = some 0 ∧ (m.pl (.input 0)).lastevent = some 0 := by
  have h0 : (eventMachine freshConfig).Reach (fun s a => a.KeepsEvents freshConfig s)
      startedEvents := .start fresh_startedEvents
  have h1 := eventMachine_next h0 (.attach 1) trivial trivial rfl
  have h2 := eventMachine_next h1 (.call (askForEvent 100) .fine) trivial trivial rfl
  have h3 := eventMachine_next h2 (.call (.putMany 0 (some [0])) .fine) ?_ trivial rfl
  · have h4 := eventMachine_next h3
      (.conduct 1 [(0, []), (1, [])] (fun _ _ => true) (fun _ => 0) .fine) trivial
      ⟨chainOk_startedEvents.congr (fun _ _ => rfl) (fun _ _ => rfl) (fun _ _ => rfl)
        (fun _ _ => rfl) (fun _ _ => rfl) rfl, by decide⟩ rfl
    obtain ⟨hall, -, ⟨m, hm⟩, hmemory⟩ := events_inOnePlace h4
    obtain ⟨hcnt, hspans⟩ : IsList m.ev (m.pl (.input 0)) [1, 0] := (hmemory m hm).2 (.input 0)
    exact ⟨_, m, hm, by decide, hall 0 (by decide), hall 1 (by decide), hcnt,
      hspans.first_eq (by decide), ((linked_cons_cons _ _ _ _).mp hspans.linked).1,
      hspans.last_eq (by decide)⟩
  · intro es hes _
    obtain rfl := Option.some.inj hes
    exact List.nodup_singleton 0

end EventTransfer
