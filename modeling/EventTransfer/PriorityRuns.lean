import EventTransfer.BatchedWrites
import EventTransfer.EventMoves
import EventTransfer.Lib.Queues

/-!
# Priority order over whole runs

Output lists, and the input lists of all stations but GRAND_CENTRAL, have their high-priority
events first; an output list counts them in `lasthigh`.  Each routine that changes a list relies
on that and keeps it, with one exception: `et_restore` leaves `lasthigh` as it is, and is used on
output lists where a station's restore mode is `ET_STATION_RESTORE_REDIST`.

* `EventSystem.PriorityOrder` — all lists are in priority order.
* `priority_kept` — so they are in every state of a run in which no event is lost, no events of high
  priority are redistributed, and nobody stores to the header of an event that is in a list.
* `no_overtaking` — in such a run the events of one priority leave a list in the order in which they
  came, unless some are restored into it.
-/

namespace EventTransfer

open Places StepRun Relation Queues

/-- The two ways to say that a list is in priority order. -/
theorem highFirst_iff {high : ℕ → Bool} {n : ℕ} {xs : List ℕ} :
    HighFirst high (n, xs) ↔ HighsFirst high xs ∧ n = xs.countP high := by
  constructor
  · intro h
    refine ⟨?_, h.countP_eq.symm⟩
    have hsplit : HighsFirst high (xs.take n ++ xs.drop n) :=
      highsFirst_append h.highs fun e he => h.lows e ((List.dropWhile_sublist high).subset he)
    rwa [List.take_append_drop] at hsplit
  · rintro ⟨h, rfl⟩
    have hlen : (xs.takeWhile high).length = xs.countP high := by
      rw [h.takeWhile_eq, List.countP_eq_length_filter]
      congr 1
      exact List.filter_congr fun e _ => by simp
    have hsplit : xs.takeWhile high ++ xs.dropWhile high = xs := List.takeWhile_append_dropWhile
    have htake : xs.take (xs.countP high) = xs.takeWhile high := by
      have := @List.take_left' _ _ (xs.dropWhile high) _ hlen
      rwa [hsplit] at this
    have hdrop : xs.drop (xs.countP high) = xs.dropWhile high := by
      have := @List.drop_left' _ _ (xs.dropWhile high) _ hlen
      rwa [hsplit] at this
    refine ⟨List.countP_le_length, fun e he => ?_, fun e he => ?_⟩
    · exact List.mem_takeWhile_imp (htake ▸ he)
    · exact h e (hdrop ▸ he)

/-- A merge by priority is in priority order. -/
theorem HighsFirst.mergeEvents {high : ℕ → Bool} {xs new : List ℕ} (hx : HighsFirst high xs)
    (hn : HighsFirst high new) : HighsFirst high (mergeEvents high xs new) := by
  unfold EventTransfer.mergeEvents
  split
  case isTrue => exact hn
  case isFalse =>
    rw [List.append_assoc, List.append_assoc]
    refine highsFirst_append (fun e he => List.mem_takeWhile_imp he) ?_
    refine highsFirst_append (fun e he => List.mem_takeWhile_imp he) fun e he => ?_
    rcases List.mem_append.mp ((List.dropWhile_sublist high).subset he) with he | he
    · exact hn e he
    · exact hx e he

namespace EventSystem

variable {s t u : EventSystem} {cfg : EventConfig} {back : ListName → Priority → Prop}
  {pe : List ℕ} {l : ListName}

/-- **Priority order**, in all lists but GRAND_CENTRAL's input list. -/
structure PriorityOrder (s : EventSystem) : Prop where
  output : ∀ ps, HighFirst (isHigh s.hdr) (s.lasthigh ps, s.list (.output ps))
  input : ∀ ps, ps ≠ 0 → HighsFirst (isHigh s.hdr) (s.list (.input ps))

/-! ## Moves -/

theorem PriorityOrder.quiet (h : s.PriorityOrder) (hquiet : Quiet s t) : t.PriorityOrder := by
  have hhigh : ∀ l, ∀ e ∈ s.list l, isHigh t.hdr e = isHigh s.hdr e := fun l e he => by
    unfold isHigh
    rw [hquiet.hdr l e he]
  refine ⟨fun ps => ?_, fun ps hps => ?_⟩
  · have hs := highFirst_iff.mp (h.output ps)
    rw [hquiet.list, hquiet.lasthigh, highFirst_iff]
    refine ⟨hs.1.congr (hhigh _), hs.2.trans ?_⟩
    exact (List.countP_congr fun e he => by rw [hhigh _ e he]).symm
  · rw [hquiet.list]
    exact (h.input ps hps).congr (hhigh _)

/-- A store to one input list. -/
theorem PriorityOrder.setInput {xs : List ℕ} (h : s.PriorityOrder) (ps : ℕ)
    (hlist : t.list = Function.update s.list (.input ps) xs) (hlasthigh : t.lasthigh = s.lasthigh)
    (hhdr : t.hdr = s.hdr) (hxs : ps ≠ 0 → HighsFirst (isHigh s.hdr) xs) : t.PriorityOrder := by
  refine ⟨fun qs => ?_, fun qs hqs => ?_⟩
  · have hne : ListName.output qs ≠ .input ps := fun h => by cases h
    rw [hlist, hlasthigh, hhdr, Function.update_of_ne hne]
    exact h.output qs
  · rw [hlist, hhdr]
    rcases eq_or_ne qs ps with rfl | hne
    · rw [Function.update_self]
      exact hxs hqs
    · rw [Function.update_of_ne fun heq => hne (ListName.input.inj heq)]
      exact h.input qs hqs

/-- A store to one output list and its `lasthigh`. -/
theorem PriorityOrder.setOutput {xs : List ℕ} {n : ℕ} (h : s.PriorityOrder) (ps : ℕ)
    (hlist : t.list = Function.update s.list (.output ps) xs)
    (hlasthigh : t.lasthigh = Function.update s.lasthigh ps n) (hhdr : t.hdr = s.hdr)
    (hxs : HighFirst (isHigh s.hdr) (n, xs)) : t.PriorityOrder := by
  refine ⟨fun qs => ?_, fun qs hqs => ?_⟩
  · rw [hlist, hlasthigh, hhdr]
    rcases eq_or_ne qs ps with rfl | hne
    · rw [Function.update_self, Function.update_self]
      exact hxs
    · rw [Function.update_of_ne hne, Function.update_of_ne fun heq => hne (ListName.output.inj heq)]
      exact h.output qs
  · have hne : ListName.input qs ≠ .output ps := fun h => by cases h
    rw [hlist, hhdr, Function.update_of_ne hne]
    exact h.input qs hqs

theorem PriorityOrder.stationNwrite (h : s.PriorityOrder) (ps : ℕ) :
    (s.stationNwrite cfg ps pe).2.PriorityOrder := by
  rcases s.stationNwrite_cases cfg ps pe with heq | heq
  · rw [heq]
    exact h
  · rw [heq]
    exact h.setOutput ps rfl rfl rfl ((h.output ps).putEvents _)

theorem PriorityOrder.stationNdump (h : s.PriorityOrder) :
    (s.stationNdump cfg pe).2.PriorityOrder := by
  rcases s.stationNdump_cases cfg pe with heq | heq
  · rw [heq]
    exact h
  · rw [heq]
    exact h.setInput 0 rfl rfl rfl fun hps => absurd rfl hps

theorem PriorityOrder.takes (h : s.PriorityOrder) (r : StationRead) (ps : ℕ) (att : ℤ) :
    (s.takes r ps att).PriorityOrder :=
  h.setInput ps rfl rfl rfl fun hps => (h.input ps hps).sublist takeWhere_snd_sublist

theorem PriorityOrder.shift (h : s.PriorityOrder) (hshift : Shift cfg s t) : t.PriorityOrder := by
  cases hshift with
  | none => exact h
  | take r ps att => exact h.takes r ps att
  | write ps => exact h.stationNwrite ps
  | dump => exact h.stationNdump
  | @pass _ me given hpass =>
      refine ⟨fun ps => ?_, fun ps hps => ?_⟩
      · rw [hpass.output, hpass.lasthigh, hpass.hdr]
        rcases eq_or_ne ps me with rfl | hne
        · rw [if_pos rfl, Function.update_self]
          exact highFirst_iff.mpr ⟨fun e he => absurd he List.not_mem_nil, rfl⟩
        · rw [if_neg hne, Function.update_of_ne hne]
          exact h.output ps
      · rw [hpass.input ps hps, hpass.hdr]
        refine (h.input ps hps).llistWrite ?_
        exact (highFirst_iff.mp (h.output me)).1.sublist (hpass.order ps)

/-- **Added events keep the lists in priority order**, unless events of high priority are restored
into an output list. -/
theorem PriorityOrder.add (h : s.PriorityOrder) (hadd : Add cfg back s t)
    (hback : ∀ ps, ¬ back (.output ps) .high) : t.PriorityOrder := by
  cases hadd with
  | quiet hquiet => exact h.quiet hquiet
  | write ps => exact h.stationNwrite ps
  | dump => exact h.stationNdump
  | @restoreIn ps pe _ _ hfirst =>
      obtain ⟨n, hlist⟩ := s.restore_list cfg (.input ps) pe
      exact h.setInput ps hlist rfl rfl fun hps =>
        (h.input ps hps).mergeEvents (hfirst.sublist (List.take_sublist n pe))
  | @restoreOut ps pe _ hwanted =>
      obtain ⟨n, hlist⟩ := s.restore_list cfg (.output ps) pe
      obtain ⟨hfirst, hcount⟩ := highFirst_iff.mp (h.output ps)
      have hnone : ∀ e ∈ pe.take n, isHigh s.hdr e = false := fun e he => by
        refine decide_eq_false fun hhigh => hback ps ?_
        rw [← hhigh]
        exact hwanted e (List.mem_of_mem_take he)
      refine h.setOutput ps hlist (Function.update_eq_self ps s.lasthigh).symm rfl
        (highFirst_iff.mpr ⟨hfirst.mergeEvents fun e he =>
          hnone e ((List.dropWhile_sublist _).subset he), ?_⟩)
      have hzero : (pe.take n).countP (isHigh s.hdr) = 0 := List.countP_eq_zero.mpr fun e he => by
        rw [hnone e he]
        exact Bool.false_ne_true
      rw [mergeEvents_perm.countP_eq, List.countP_append, hzero, Nat.add_zero]
      exact hcount

theorem PriorityOrder.adds (h : s.PriorityOrder) (hadds : Adds cfg back s t)
    (hback : ∀ ps, ¬ back (.output ps) .high) : t.PriorityOrder := by
  induction hadds with
  | refl => exact h
  | tail _ hadd ih => exact ih.add hadd hback

theorem PriorityOrder.effect (h : s.PriorityOrder) (heffect : Effect cfg back s t)
    (hback : ∀ ps, ¬ back (.output ps) .high) : t.PriorityOrder := by
  cases heffect with
  | shift hshift =>
      obtain ⟨u, v, hbefore, hshift, hafter⟩ := hshift
      exact ((h.quiet hbefore).shift hshift).quiet hafter
  | detach ps hbefore hflush hafter =>
      have hu := h.quiet hbefore
      rcases hflush with rfl | ⟨-, r, att, rfl⟩
      · exact hu.adds hafter hback
      · exact (hu.takes r ps att).adds hafter hback

/-! ## Queues -/

/-- **A queue of a list**: its events of one priority.  GRAND_CENTRAL's input list is one queue. -/
def queue (l : ListName) (p : Priority) (s : EventSystem) : List ℕ :=
  if l = .input 0 then s.list l else (s.list l).filter fun e => (s.hdr e).priority = p

theorem queue_sublist (l : ListName) (p : Priority) (s : EventSystem) :
    (s.queue l p).Sublist (s.list l) := by
  unfold queue
  split
  · exact .refl _
  · exact List.filter_sublist

variable {p : Priority}

/-- A queue, as long as its list and the headers of its events are the same. -/
theorem queue_congr (hlist : t.list l = s.list l) (hhdr : ∀ e ∈ s.list l, t.hdr e = s.hdr e) :
    t.queue l p = s.queue l p := by
  unfold queue
  rw [hlist]
  split
  · rfl
  · exact List.filter_congr fun e he => by rw [hhdr e he]

theorem queue_update {m : ListName} {xs : List ℕ} (hlist : t.list = Function.update s.list m xs)
    (hhdr : t.hdr = s.hdr) (hne : l ≠ m) : t.queue l p = s.queue l p :=
  queue_congr (by rw [hlist, Function.update_of_ne hne]) fun e _ => congrFun hhdr e

/-- The two priorities. -/
theorem filter_priority (hdr : ℕ → EventHeader) (p : Priority) :
    (fun e => decide ((hdr e).priority = p)) =
      fun e => decide (isHigh hdr e = decide (p = .high)) := by
  funext e
  unfold isHigh
  cases (hdr e).priority <;> cases p <;> rfl

/-- A write into an output list, queue by queue. -/
theorem filter_putEvents {high : ℕ → Bool} {q : ℕ × List ℕ} (h : HighFirst high q) (pe : List ℕ)
    (b : Bool) : (putEvents high q pe).2.filter (high · = b) =
      q.2.filter (high · = b) ++ pe.filter (high · = b) := by
  rw [h.putEvents_eq]
  cases b with
  | true => simp [List.filter_append, List.filter_filter]
  | false => simp [List.filter_append, List.filter_filter]

/-- Events of other priorities are merged into a list. -/
theorem filter_mergeEvents {high f : ℕ → Bool} {xs pe : List ℕ} (h : ∀ e ∈ pe, f e = false) :
    (mergeEvents high xs pe).filter f = xs.filter f := by
  have hnone : ∀ ys : List ℕ, ys.Sublist pe → ys.filter f = [] := fun ys hys =>
    List.filter_eq_nil_iff.mpr fun e he => by
      rw [h e (hys.subset he)]
      exact Bool.false_ne_true
  unfold mergeEvents
  split
  case isTrue hnil => rw [hnil, hnone pe (.refl pe), List.filter_nil]
  case isFalse =>
    rw [List.filter_append, List.filter_append, List.filter_append,
      hnone _ (List.takeWhile_sublist _), hnone _ (List.dropWhile_sublist _), List.nil_append,
      List.append_nil, ← List.filter_append, List.takeWhile_append_dropWhile]

/-- A restore leaves the queues of other priorities alone. -/
theorem queue_restore {m : ListName} (hm : m ≠ .input 0)
    (h : l = m → ∀ e ∈ pe, (s.hdr e).priority ≠ p) :
    (s.restore cfg m pe).2.queue l p = s.queue l p := by
  obtain ⟨n, hlist⟩ := s.restore_list cfg m pe
  by_cases hl : l = m
  · subst hl
    unfold queue
    rw [if_neg hm, if_neg hm, hlist, Function.update_self]
    refine filter_mergeEvents fun e he => decide_eq_false ?_
    exact h rfl e (List.mem_of_mem_take he)
  · exact queue_update hlist rfl hl

/-- **Added events are at the ends of the queues**, or in another queue. -/
theorem Add.queue (h : s.PriorityOrder) (hadd : Add cfg back s t) (hback : ¬ back l p) :
    ∃ new, t.queue l p = s.queue l p ++ new ∧ ∀ ps, ps ≠ 0 → l = .input ps → new = [] := by
  have hsame : t.queue l p = s.queue l p →
      ∃ new, t.queue l p = s.queue l p ++ new ∧ ∀ ps, ps ≠ 0 → l = .input ps → new = [] :=
    fun heq => ⟨[], by rw [heq, List.append_nil], fun _ _ _ => rfl⟩
  cases hadd with
  | quiet hquiet => exact hsame (queue_congr (congrFun hquiet.list l) (hquiet.hdr l))
  | @write ps pe _ =>
      rcases s.stationNwrite_cases cfg ps pe with heq | heq
      · exact hsame (by rw [heq])
      rw [heq] at hsame ⊢
      by_cases hl : l = .output ps
      · subst hl
        refine ⟨pe.filter fun e => (s.hdr e).priority = p, ?_, fun _ _ h => by cases h⟩
        have hput := filter_putEvents (h.output ps) pe (decide (p = .high))
        rw [← filter_priority] at hput
        unfold EventSystem.queue
        rw [if_neg (fun h => by cases h), if_neg (fun h => by cases h)]
        exact (congrArg _ (Function.update_self (.output ps) _ s.list)).trans hput
      · exact hsame (queue_update rfl rfl hl)
  | @dump pe _ =>
      rcases s.stationNdump_cases cfg pe with heq | heq
      · exact hsame (by rw [heq])
      rw [heq] at hsame ⊢
      by_cases hl : l = .input 0
      · subst hl
        refine ⟨pe, ?_, fun ps hps h0 => absurd (ListName.input.inj h0).symm hps⟩
        unfold EventSystem.queue
        rw [if_pos rfl, if_pos rfl]
        exact Function.update_self (.input 0) _ s.list
      · exact hsame (queue_update rfl rfl hl)
  | @restoreIn ps pe hps _ _ hwanted =>
      refine hsame (queue_restore (fun h0 => hps (ListName.input.inj h0)) ?_)
      rintro rfl e he rfl
      exact hback (hwanted e he)
  | @restoreOut ps pe _ hwanted =>
      refine hsame (queue_restore (fun h0 => by cases h0) ?_)
      rintro rfl e he rfl
      exact hback (hwanted e he)

theorem PriorityOrder.adds_queue (h : s.PriorityOrder) (hadds : Adds cfg back s t)
    (hhigh : ∀ ps, ¬ back (.output ps) .high) (hback : ¬ back l p) :
    ∃ new, t.queue l p = s.queue l p ++ new ∧ ∀ ps, ps ≠ 0 → l = .input ps → new = [] := by
  induction hadds with
  | refl => exact ⟨[], (List.append_nil _).symm, fun _ _ _ => rfl⟩
  | @tail u t hadds hadd ih =>
      obtain ⟨before, hqueue, hnil⟩ := ih
      obtain ⟨new, hnew, hnil'⟩ := hadd.queue (h.adds hadds hhigh) hback
      refine ⟨before ++ new, by rw [hnew, hqueue, List.append_assoc], fun ps hps hl => ?_⟩
      rw [hnil ps hps hl, hnil' ps hps hl, List.append_nil]

theorem takes_queue (s : EventSystem) (r : StationRead) (ps : ℕ) (att : ℤ) (l : ListName)
    (p : Priority) : ((s.takes r ps att).queue l p).Sublist (s.queue l p) ∧
      (l ≠ .input ps → (s.takes r ps att).queue l p = s.queue l p) := by
  refine ⟨?_, fun hl => queue_update rfl rfl hl⟩
  by_cases hl : l = .input ps
  · subst hl
    have hlist : (s.takes r ps att).list (.input ps) =
        (r.handOut s.hdr (s.list (.input ps))).2 := by
      unfold takes
      exact Function.update_self (.input ps) _ s.list
    have hsub : ((s.takes r ps att).list (.input ps)).Sublist (s.list (.input ps)) :=
      hlist ▸ takeWhere_snd_sublist
    unfold queue
    split
    · exact hsub
    · exact hsub.filter _
  · rw [@queue_update s (s.takes r ps att) l p _ _ rfl rfl hl]

/-- **A shift** takes events out of a queue, or puts some at its end. -/
theorem Shift.queue (h : s.PriorityOrder) (hshift : Shift cfg s t) (l : ListName) (p : Priority) :
    GoesOn (s.queue l p) (t.queue l p) := by
  have hadded : ∀ {t}, Add cfg (fun _ _ => False) s t → GoesOn (s.queue l p) (t.queue l p) := by
    intro t hadd
    obtain ⟨new, hnew, -⟩ := hadd.queue h id
    rw [hnew]
    exact .more new
  cases hshift with
  | none => exact .refl _
  | take r ps att => exact .fewer (takes_queue s r ps att l p).1
  | write ps hnew => exact hadded (.write ps hnew)
  | dump hnew => exact hadded (.dump hnew)
  | @pass _ me given hpass =>
      have hpriority := filter_priority s.hdr p
      cases l with
      | output ps =>
          unfold EventSystem.queue
          rw [if_neg (fun h => by cases h), if_neg (fun h => by cases h), hpass.output, hpass.hdr]
          split
          · exact .fewer (List.nil_sublist _)
          · exact .refl _
      | input ps =>
          rcases eq_or_ne ps 0 with rfl | hps
          · unfold EventSystem.queue
            rw [if_pos rfl, if_pos rfl, hpass.grandCentral]
            exact .more _
          · have hin : ListName.input ps ≠ .input 0 := fun h => hps (ListName.input.inj h)
            unfold EventSystem.queue
            rw [if_neg hin, if_neg hin, hpass.input ps hps, hpass.hdr, hpriority,
              (h.input ps hps).filter_llistWrite]
            exact .more _

/-- **What a step does to a queue** into which it restores nothing. -/
theorem Effect.queue (h : s.PriorityOrder) (heffect : Effect cfg back s t)
    (hhigh : ∀ ps, ¬ back (.output ps) .high) (hback : ¬ back l p) :
    GoesOn (s.queue l p) (t.queue l p) := by
  cases heffect with
  | shift hshift =>
      obtain ⟨u, v, hbefore, hshift, hafter⟩ := hshift
      rw [← queue_congr (congrFun hbefore.list l) (hbefore.hdr l),
        queue_congr (congrFun hafter.list l) (hafter.hdr l)]
      exact hshift.queue (h.quiet hbefore) l p
  | @detach u v ps hbefore hflush hafter =>
      have hu := h.quiet hbefore
      have hv : v.PriorityOrder := by
        rcases hflush with rfl | ⟨-, r, att, rfl⟩
        · exact hu
        · exact hu.takes r ps att
      obtain ⟨new, hnew, hnil⟩ := hv.adds_queue hafter hhigh hback
      rw [← queue_congr (congrFun hbefore.list l) (hbefore.hdr l), hnew]
      rcases hflush with rfl | ⟨hps, r, att, rfl⟩
      · exact .more new
      · obtain ⟨hfewer, hsame⟩ := takes_queue u r ps att l p
        by_cases hl : l = .input ps
        · rw [hnil ps hps hl, List.append_nil]
          exact .fewer hfewer
        · rw [hsame hl]
          exact .more new

end EventSystem

/-! ## Runs -/

/-- **The steps that keep priority order**: no event is lost, processes store only to the headers
of events that belong to an attachment, and no events of high priority are restored into an output
list. -/
def EventStep.KeepsOrder (cfg : EventConfig) (s : EventSystem) (a : EventStep) : Prop :=
  a.KeepsEvents cfg s ∧ a.StoresToOwned s ∧ ∀ ps, ¬ a.restores cfg s (.output ps) .high

open EventSystem

variable {cfg : EventConfig} {s t : EventSystem}

theorem EventSystem.Fresh.priorityOrder (h : s.Fresh cfg) : s.PriorityOrder := by
  refine ⟨fun ps => ?_, fun ps hps => ?_⟩
  · have hempty : s.list (.output ps) = [] := h.empty _ fun h0 => by cases h0
    rw [hempty, h.lasthigh]
    exact highFirst_iff.mpr ⟨fun e he => absurd he List.not_mem_nil, rfl⟩
  · rw [h.empty _ fun h0 => hps (ListName.input.inj h0)]
    exact fun e he => absurd he List.not_mem_nil

/-- What the runs keep that keep priority order. -/
theorem ordered_of_reach (h : (eventMachine cfg).Reach (fun s a => a.KeepsOrder cfg s) s) :
    AllInPlace cfg s ∧ s.PriorityOrder := by
  refine @Machine.Reach.invariant _ _ _ _ _ (fun s => AllInPlace cfg s ∧ s.PriorityOrder) h
    (fun s hs => ⟨hs.allInPlace, hs.priorityOrder⟩) fun s a t hs ha hstep => ?_
  obtain ⟨hkeeps, hown, hhigh⟩ := ha
  exact ⟨hs.1.next a hkeeps hstep.1 hstep.2,
    hs.2.effect (a.effect hs.1 hkeeps hstep.1 hown hstep.2) hhigh⟩

/-- **Every list stays in priority order**: in every state of a run that restores no events of high
priority into an output list, each output list has its high-priority events first and counts them
in `lasthigh`, and each input list but GRAND_CENTRAL's has its high-priority events first. -/
theorem priority_kept (h : (eventMachine cfg).Reach (fun s a => a.KeepsOrder cfg s) s) :
    (∀ ps, HighFirst (isHigh s.hdr) (s.lasthigh ps, s.list (.output ps))) ∧
      ∀ ps, ps ≠ 0 → HighsFirst (isHigh s.hdr) (s.list (.input ps)) :=
  ⟨(ordered_of_reach h).2.output, (ordered_of_reach h).2.input⟩

/-- An attachment to GRAND_CENTRAL makes three events, gives the event `1` high priority, and puts the
other two before it.  GRAND_CENTRAL's conductor then gives them to the station `1`. -/
theorem priority_kept_example :
    ∃ s t, (eventMachine twoReaders).Reach (fun s a => a.KeepsOrder twoReaders s) s ∧
      (eventMachine twoReaders).Reach (fun s a => a.KeepsOrder twoReaders s) t ∧
      s.list (.output 0) = [1, 0, 2] ∧ HighFirst (isHigh s.hdr) (1, [1, 0, 2]) ∧
      t.list (.input 1) = [1, 0, 2] ∧ HighsFirst (isHigh t.hdr) [1, 0, 2] := by
  have h0 : (eventMachine twoReaders).Reach (fun s a => a.KeepsOrder twoReaders s)
      startedThree := .start fresh_startedThree
  have h1 := eventMachine_next h0 (.attach 0) ⟨trivial, trivial, fun _ => id⟩ trivial rfl
  have h2 := eventMachine_next h1 (.attach 1) ⟨trivial, trivial, fun _ => id⟩ trivial rfl
  have h3 := eventMachine_next h2 (.call askForThree .fine) ⟨trivial, trivial, fun _ => id⟩
    trivial rfl
  have h4 := eventMachine_next h3 (.setFields 1 .high .ok 100 [])
    ⟨trivial, (by decide : (_ : ℤ) ≠ etSys), fun _ => id⟩ trivial rfl
  have h5 := eventMachine_next h4 (.call (.putMany 0 (some [0, 2])) .fine)
    ⟨LocalCall.namesOnce_putMany (by decide) _, trivial, fun _ => id⟩ trivial rfl
  have h6 := eventMachine_next h5 (.call (.putMany 0 (some [1])) .fine)
    ⟨LocalCall.namesOnce_putMany (by decide) _, trivial, fun _ => id⟩ trivial rfl
  have h7 := eventMachine_next h6
    (.conduct 0 [(0, []), (1, [])] (fun _ _ => true) (fun _ => 0) .fine)
    ⟨Pass.allDealWell_singleton (by unfold Stations.TakesEvents; decide) .., trivial, fun _ => id⟩
    ⟨chainOk_attached, by decide⟩ rfl
  exact ⟨_, _, h6, h7, by decide, (priority_kept h6).1 0, by decide,
    (priority_kept h7).2 1 Nat.one_ne_zero⟩

/-- A step of such a run that restores no events of the priority `p` into the list `l`. -/
def QueueStep (cfg : EventConfig) (l : ListName) (p : Priority) (s t : EventSystem) : Prop :=
  (eventMachine cfg).Reach (fun s a => a.KeepsOrder cfg s) s ∧
    ∃ a : EventStep, a.KeepsOrder cfg s ∧ ¬ a.restores cfg s l p ∧ (eventMachine cfg).step s a t

/-- **No event overtakes another one.**  As long as an event waits in a list, and no events of its
priority are restored into that list, the events of that priority that are before it become only
fewer, and stay in order. -/
theorem no_overtaking {l : ListName} {p : Priority} {e : ℕ}
    (h : Waiting (QueueStep cfg l p) (EventSystem.queue l p) e s t) :
    (inFront e (t.queue l p)).Sublist (inFront e (s.queue l p)) := by
  refine h.inFront_sublist ?_
  rintro s t ⟨hreach, a, ⟨hkeeps, hown, hhigh⟩, hback, hfits, hnext⟩
  obtain ⟨hall, horder⟩ := ordered_of_reach hreach
  exact ⟨(hall.separate.nodup l).sublist (queue_sublist l p s),
    (a.effect hall hkeeps hfits hown hnext).queue horder hhigh hback⟩

/-- Event `1` waits in GRAND_CENTRAL's list while event `0`, in front of it, is made. -/
theorem no_overtaking_example :
    ∃ s t, s.list (.input 0) = [0, 1] ∧ t.list (.input 0) = [1] ∧
      Waiting (QueueStep freshConfig (.input 0) .low) (EventSystem.queue (.input 0) .low) 1 s t ∧
      (inFront 1 (t.queue (.input 0) .low)).Sublist (inFront 1 (s.queue (.input 0) .low)) := by
  have h0 : (eventMachine freshConfig).Reach (fun s a => a.KeepsOrder freshConfig s)
      startedEvents := .start fresh_startedEvents
  have h1 := eventMachine_next h0 (.attach 1) ⟨trivial, trivial, fun _ => id⟩ trivial rfl
  have hstep : QueueStep freshConfig (.input 0) .low _
      ((askForEvent 100).perform freshConfig OsAnswers.fine.alone _).2 :=
    ⟨h1, .call (askForEvent 100) .fine, ⟨trivial, trivial, fun _ => id⟩, id, trivial, rfl⟩
  have hwait : Waiting _ (EventSystem.queue (.input 0) .low) 1 _ _ :=
    .step (.refl (by decide)) hstep (by decide)
  exact ⟨_, _, by decide, by decide, hwait, no_overtaking hwait⟩

end EventTransfer
