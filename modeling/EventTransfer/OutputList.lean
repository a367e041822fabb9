import EventTransfer.Event

/-!
# Writing to a station's output list

`et_station_write` and `et_station_nwrite` put the events of an attachment into
its station's output list: events of high priority after the last high one, the
others at the end.  Both are store programs over the list, so that every point
at which the writing process can die is a state of its own, and
`et_repair_outputlist` is what the ET system runs on such a state.

The list keeps a cached count `lasthigh` of its high-priority events.  The
writers trust it: a high event goes after node number `lasthigh`.  What they do
is therefore stated for any value up to the length of the list (`putEvents`);
that the cache is exact, and the list in priority order, are facts about
`putEvents`.
-/

namespace EventTransfer

open LinkedHeap StoreProgram StoreProgram.Prog

/-- The memory a routine working on an output list changes. -/
abbrev OutMem := ListMem FixOut

/-! ## The writers -/

/-- "Info for fixing broken output list": what both writers store before they
touch the list. -/
def noteWrite (num : ℕ) : Prog OutMem PUnit := do
  let m ← get
  when (m.pl.cnt = 0) (store fun t => { t with pl.firstevent := none })
  store fun t => { t with fix.cnt := t.pl.cnt }
  store fun t => { t with fix.num := num }
  store fun t => { t with fix.start := t.fix.start + 1 }

/-- Link the event `pe` into a list that is not empty, given the pointers to its
last high-priority and its last event; the value is the same two pointers for
the list with `pe` in it. -/
def linkEvent (pe : ℕ) (peLasthigh peLast : Option ℕ) :
    Prog OutMem (Option ℕ × Option ℕ) := do
  let m ← get
  if m.ev.isHigh pe then
    if peLasthigh = none then do
      store fun t => { t with ev := t.ev.setNext (some pe) t.pl.firstevent }
      store fun t => { t with pl.firstevent := some pe }
      store fun t => { t with pl.lasthigh := t.pl.lasthigh + 1 }
      pure (some pe, peLast)
    else if peLasthigh = peLast then do
      -- only high-priority events exist
      store fun t => { t with ev := t.ev.setNext peLast (some pe) }
      store fun t => { t with pl.lastevent := some pe }
      store fun t => { t with pl.lasthigh := t.pl.lasthigh + 1 }
      pure (some pe, some pe)
    else do
      store fun t => { t with ev := t.ev.setNext (some pe) (peLasthigh.bind t.ev.next) }
      store fun t => { t with ev := t.ev.setNext peLasthigh (some pe) }
      store fun t => { t with pl.lasthigh := t.pl.lasthigh + 1 }
      pure (some pe, peLast)
  else do
    store fun t => { t with ev := t.ev.setNext peLast (some pe) }
    store fun t => { t with pl.lastevent := some pe }
    pure (peLasthigh, some pe)

/-- The last high-priority event of the list: node number `lasthigh` from
`firstevent`, null when there is none. -/
def findLasthigh (m : OutMem) : Option ℕ :=
  if m.pl.lasthigh = 0 then none
  else follow m.ev.next (m.pl.lasthigh - 1) m.pl.firstevent

/-- `et_station_write`, from the point where the list is locked to the point where
it is unlocked again. -/
def stationWrite (nevents pe : ℕ) : Prog OutMem Ret := do
  let m ← get
  if nevents ≤ m.pl.cnt then pure .error
  else do
    noteWrite 1
    if m.pl.cnt = 0 then do
      store fun t => { t with pl.firstevent := some pe }
      store fun t => { t with pl.lastevent := some pe }
      when (m.ev.isHigh pe) (store fun t => { t with pl.lasthigh := 1 })
    else do
      let _ ← linkEvent pe (findLasthigh m) m.pl.lastevent
      pure ⟨⟩
    store fun t => { t with ev := t.ev.setOwner pe etSys }
    store fun t => { t with pl.cnt := t.pl.cnt + 1 }
    store fun t => { t with fix.start := t.fix.start - 1 }
    pure .ok

/-- The loop of `et_station_nwrite` over the events left to write. -/
def nwriteLoop : List ℕ → Option ℕ → Option ℕ → Prog OutMem PUnit
  | [], _, _ => pure ⟨⟩
  | pe :: rest, peLasthigh, peLast => do
      let p ← linkEvent pe peLasthigh peLast
      store fun t => { t with ev := t.ev.setOwner pe etSys }
      store fun t => { t with pl.cnt := t.pl.cnt + 1 }
      nwriteLoop rest p.1 p.2

/-- `et_station_nwrite`, from the lock of the list to its unlock; `pe` is the array
of events, `num` its length. -/
def stationNwrite (nevents : ℕ) : List ℕ → Prog OutMem Ret
  | [] => pure .ok
  | pe :: rest => do
      let m ← get
      if nevents - m.pl.cnt < rest.length + 1 then pure .error
      else do
        noteWrite (rest.length + 1)
        if m.pl.cnt = 0 then do
          store fun t => { t with pl.firstevent := some pe }
          store fun t => { t with pl.lastevent := some pe }
          store fun t => { t with ev := t.ev.setOwner pe etSys }
          when (m.ev.isHigh pe) (store fun t => { t with pl.lasthigh := 1 })
          store fun t => { t with pl.cnt := t.pl.cnt + 1 }
          nwriteLoop rest (if m.ev.isHigh pe then some pe else none) (some pe)
        else
          nwriteLoop (pe :: rest) (findLasthigh m) m.pl.lastevent
        store fun t => { t with fix.start := t.fix.start - 1 }
        pure .ok

/-! ## The repair -/

/-- The loop of `et_repair_outputlist`: at most `n` nodes from `pe` to `last` are
given back to the system, counted, and their high-priority events counted.  The
return code is `ET_OK` if `last` was met; `none` is a null pointer followed. -/
def repairOutputLoop (last : Option ℕ) :
    ℕ → Option ℕ → OutMem → ℕ → ℕ → Option (Ret × OutMem × ℕ × ℕ)
  | 0, _, t, count, lasthigh => some (.error, t, count, lasthigh)
  | _ + 1, none, _, _, _ => none
  | n + 1, some pe, t, count, lasthigh =>
      let t := { t with ev := t.ev.setOwner pe etSys }
      let lasthigh := if t.ev.isHigh pe then lasthigh + 1 else lasthigh
      if some pe = last then some (.ok, t, count + 1, lasthigh)
      else repairOutputLoop last n (t.ev.next pe) t (count + 1) lasthigh

/-- `et_repair_outputlist`. -/
def repairOutputlist (t : OutMem) : Option (Ret × OutMem) :=
  if t.fix.start = 0 then some (.ok, t)
  else if t.pl.cnt = t.fix.cnt + t.fix.num then
    some (.ok, { t with fix.start := 0 })
  else if t.pl.cnt = 0 ∧ t.pl.firstevent = none then
    some (.ok, { t with fix.start := 0 })
  else
    -- the very first event written is also the last
    let t := if t.pl.cnt = 0 then { t with pl.lastevent := t.pl.firstevent } else t
    (repairOutputLoop t.pl.lastevent (t.fix.cnt + t.fix.num) t.pl.firstevent t 0 0).map
      fun r => (r.1, { r.2.1 with
        pl.cnt := r.2.2.1, pl.lasthigh := r.2.2.2, fix.start := 0 })

/-! ## What a write does to the contents -/

/-- One event put into a list with cached count `p.1` and contents `p.2`. -/
def putEvent (high : ℕ → Bool) (p : ℕ × List ℕ) (e : ℕ) : ℕ × List ℕ :=
  if high e then (p.1 + 1, p.2.take p.1 ++ e :: p.2.drop p.1) else (p.1, p.2 ++ [e])

/-- **The contents after a write**: the events put one after the other. -/
def putEvents (high : ℕ → Bool) (p : ℕ × List ℕ) (new : List ℕ) : ℕ × List ℕ :=
  new.foldl (putEvent high) p

section PutEvents

variable {high : ℕ → Bool} {p : ℕ × List ℕ} {e : ℕ} {new : List ℕ}

@[simp] theorem putEvents_nil : putEvents high p [] = p := rfl

@[simp] theorem putEvents_cons :
    putEvents high p (e :: new) = putEvents high (putEvent high p e) new := rfl

theorem putEvents_append (new' : List ℕ) :
    putEvents high p (new ++ new') = putEvents high (putEvents high p new) new' :=
  List.foldl_append

theorem putEvent_perm : (putEvent high p e).2.Perm (e :: p.2) := by
  unfold putEvent
  split
  · refine List.perm_middle.trans ?_
    rw [List.take_append_drop]
  · exact List.perm_append_singleton e p.2

theorem putEvent_ne_nil : (putEvent high p e).2 ≠ [] :=
  List.ne_nil_of_mem (putEvent_perm.mem_iff.mpr List.mem_cons_self)

/-- Nothing is lost and nothing duplicated. -/
theorem putEvents_perm : (putEvents high p new).2.Perm (p.2 ++ new) := by
  induction new generalizing p with
  | nil => simp
  | cons e new ih =>
      rw [putEvents_cons]
      exact ih.trans ((putEvent_perm.append_right new).trans List.perm_middle.symm)

@[simp] theorem mem_putEvents {a : ℕ} :
    a ∈ (putEvents high p new).2 ↔ a ∈ p.2 ∨ a ∈ new := by
  rw [putEvents_perm.mem_iff, List.mem_append]

theorem length_putEvents : (putEvents high p new).2.length = p.2.length + new.length := by
  rw [putEvents_perm.length_eq, List.length_append]

theorem putEvent_le (h : p.1 ≤ p.2.length) :
    (putEvent high p e).1 ≤ (putEvent high p e).2.length := by
  unfold putEvent
  split
  · simp; omega
  · simp; omega

/-- The cached count stays within the list. -/
theorem putEvents_le (h : p.1 ≤ p.2.length) :
    (putEvents high p new).1 ≤ (putEvents high p new).2.length := by
  induction new generalizing p with
  | nil => exact h
  | cons e new ih => exact ih (putEvent_le h)

/-- The old events keep their order: they are what is left of the new contents
when the new events are taken out. -/
theorem filter_putEvents (old : ℕ → Bool) (hnew : ∀ a ∈ new, old a = false) :
    (putEvents high p new).2.filter old = p.2.filter old := by
  induction new generalizing p with
  | nil => rfl
  | cons e new ih =>
      rw [putEvents_cons, ih fun a ha => hnew a (List.mem_cons_of_mem _ ha)]
      have he := hnew e (by simp)
      unfold putEvent
      split
      · rw [List.filter_append, List.filter_cons_of_neg (by simp [he]),
          ← List.filter_append, List.take_append_drop]
      · simp [he]

theorem putEvents_empty (high : ℕ → Bool) (pe : ℕ) :
    putEvents high (0, []) [pe] = (if high pe then 1 else 0, [pe]) := by
  unfold putEvents putEvent
  rw [List.foldl_cons]
  split <;> rfl

end PutEvents

/-- **Priority order**: `p.1` high-priority events, and then only low ones. -/
structure HighFirst (high : ℕ → Bool) (p : ℕ × List ℕ) : Prop where
  le : p.1 ≤ p.2.length
  highs : ∀ a ∈ p.2.take p.1, high a = true
  lows : ∀ a ∈ p.2.drop p.1, high a = false

namespace HighFirst

variable {high : ℕ → Bool} {p : ℕ × List ℕ}

/-- In priority order the cached count is the number of high-priority events. -/
theorem countP_eq (h : HighFirst high p) : p.2.countP high = p.1 := by
  rw [← List.take_append_drop p.1 p.2, List.countP_append,
    List.countP_eq_length.mpr h.highs, List.countP_eq_zero.mpr fun a ha => by
      simp [h.lows a ha]]
  simpa using h.le

/-- **Writing keeps the priority order and the cached count exact.** -/
theorem putEvent (h : HighFirst high p) (e : ℕ) : HighFirst high (putEvent high p e) := by
  obtain ⟨hle, hh, hl⟩ := h
  unfold EventTransfer.putEvent
  split
  · rename_i he
    have hlen : (p.2.take p.1).length = p.1 := by simpa using hle
    refine ⟨by simp; omega, ?_, ?_⟩
    · intro a ha
      simp only [List.take_append, hlen] at ha
      have : List.take (p.1 + 1) (p.2.take p.1) = p.2.take p.1 :=
        List.take_of_length_le (by omega)
      simp only [this, Nat.add_sub_cancel_left, List.take_succ_cons, List.take_zero,
        List.mem_append, List.mem_singleton] at ha
      rcases ha with ha | rfl
      · exact hh a ha
      · exact he
    · intro a ha
      simp only [List.drop_append, hlen] at ha
      have : List.drop (p.1 + 1) (p.2.take p.1) = [] :=
        List.drop_eq_nil_of_le (by omega)
      simp only [this, Nat.add_sub_cancel_left, List.drop_succ_cons, List.drop_zero,
        List.nil_append] at ha
      exact hl a ha
  · rename_i he
    refine ⟨by simp; omega, ?_, ?_⟩
    · intro a ha
      rw [List.take_append_of_le_length hle] at ha
      exact hh a ha
    · intro a ha
      rw [List.drop_append_of_le_length hle, List.mem_append, List.mem_singleton] at ha
      rcases ha with ha | rfl
      · exact hl a ha
      · simpa using he

theorem putEvents (h : HighFirst high p) (new : List ℕ) :
    HighFirst high (putEvents high p new) := by
  induction new generalizing p with
  | nil => exact h
  | cons e new ih => exact ih (h.putEvent e)

end HighFirst

end EventTransfer
