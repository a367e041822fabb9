import EventTransfer.OutputRepair
import EventTransfer.GcRepair

/-!
# A batch is its events one after the other

A process hands events on one by one (`et_station_write`, `et_station_dump`) or as an
array (`et_station_nwrite`, `et_station_ndump`).  The routines for arrays are written
out separately: they take the lock once, keep pointers to the last event and the last
high-priority event from one event to the next, and do not look at the list again.

* `OutputReady m xs` — `xs` is a well-formed output list nobody is working on.
* `stationNwrite_eq_each` — `et_station_nwrite` leaves the list, the count, the number
  of high-priority events and the owners that `et_station_write` leaves, called on the
  events one after the other; and the list is in priority order.
* `stationNdump_eq_each_iff` — `et_station_ndump` leaves GRAND_CENTRAL's list as
  `et_station_dump` does up to one field: it never adds to `events_in`.

The repeated calls are followed with the rule for a sequence of runs: the invariant is
what one batch write has done so far, and one more call is one more event of it.
-/

namespace EventTransfer

open LinkedHeap StoreProgram StoreProgram.Prog

/-! ## Output lists -/

/-- **A well-formed output list** `xs` that nobody is working on: the high-priority
events come first, `lasthigh` is their number, the events belong to the system, and the
repair notes are closed. -/
structure OutputReady (m : OutMem) (xs : List ℕ) : Prop where
  isList : IsList m.ev m.pl xs
  highFirst : HighFirst m.ev.isHigh (m.pl.lasthigh, xs)
  owned : ∀ e ∈ xs, m.ev.owner e = etSys
  quiet : m.fix.start = 0

/-- The events `new` are different ones and held by the attachment `att`. -/
structure Held (ev : Events) (att : ℕ) (new : List ℕ) : Prop where
  nodup : new.Nodup
  owner_eq : ∀ e ∈ new, ev.owner e = att

/-- An event of an attachment is in no list of the system. -/
theorem Held.notMem {ev : Events} {att : ℕ} {new xs : List ℕ} (h : Held ev att new)
    (hown : ∀ e ∈ xs, ev.owner e = etSys) : ∀ e ∈ new, e ∉ xs := by
  intro e he hx
  have hneg : (att : ℤ) = -1 := (h.owner_eq e he).symm.trans (hown e hx)
  omega

/-- An event that comes next was not there before. -/
theorem notMem_of_snoc_prefix {new done : List ℕ} {pe : ℕ} (hpre : done ++ [pe] <+: new)
    (hnd : new.Nodup) : pe ∉ done := by
  intro hd
  have h := hpre.sublist.nodup hnd
  rw [List.nodup_append] at h
  exact h.2.2 pe hd pe (by simp) rfl

section PriorityOrder

variable {high : ℕ → Bool}

/-- One event put into a list in priority order. -/
theorem putEvent_sorted {as bs : List ℕ} (e : ℕ) :
    putEvent high (as.length, as ++ bs) e =
      if high e then (as.length + 1, (as ++ [e]) ++ bs) else (as.length, as ++ (bs ++ [e])) := by
  unfold putEvent
  split
  · simp
  · simp

/-- **The contents after a batch**: the old high-priority events, the new ones, the other
old events, the other new ones. -/
theorem putEvents_sorted {as bs : List ℕ} (new : List ℕ) :
    putEvents high (as.length, as ++ bs) new =
      (as.length + new.countP high,
        (as ++ new.filter high) ++ (bs ++ new.filter fun e => !high e)) := by
  induction new generalizing as bs with
  | nil => simp
  | cons e new ih =>
      rw [putEvents_cons, putEvent_sorted]
      split
      case isTrue he =>
        have h := @ih (as ++ [e]) bs
        rw [List.length_append, List.length_singleton] at h
        rw [h]
        simp [he]
        omega
      case isFalse he =>
        rw [ih]
        simp [he]

/-- In priority order the first part is the high-priority events, the second the
others. -/
theorem HighFirst.filter_eq {p : ℕ × List ℕ} (h : HighFirst high p) :
    p.2.filter high = p.2.take p.1 ∧ (p.2.filter fun e => !high e) = p.2.drop p.1 := by
  have hl : ∀ a ∈ p.2.drop p.1, ¬ high a = true := fun a ha => by simp [h.lows a ha]
  constructor
  · conv_lhs => rw [← List.take_append_drop p.1 p.2]
    rw [List.filter_append, List.filter_eq_self.mpr h.highs, List.filter_eq_nil_iff.mpr hl,
      List.append_nil]
  · conv_lhs => rw [← List.take_append_drop p.1 p.2]
    rw [List.filter_append, List.filter_eq_nil_iff.mpr fun a ha => by simp [h.highs a ha],
      List.filter_eq_self.mpr fun a ha => by simp [h.lows a ha], List.nil_append]

theorem HighFirst.putEvents_eq {p : ℕ × List ℕ} (h : HighFirst high p) (new : List ℕ) :
    EventTransfer.putEvents high p new =
      (p.1 + new.countP high,
        p.2.filter high ++ new.filter high ++
          ((p.2.filter fun e => !high e) ++ new.filter fun e => !high e)) := by
  obtain ⟨htake, hdrop⟩ := h.filter_eq
  have hlen : (p.2.take p.1).length = p.1 := by simpa using h.le
  have hput := @putEvents_sorted high (p.2.take p.1) (p.2.drop p.1) new
  rw [hlen, List.take_append_drop] at hput
  rw [htake, hdrop]
  exact hput

end PriorityOrder

section Writing

variable {m t u : OutMem} {xs new done : List ℕ}

/-- One more write of a batch. -/
theorem Wrote.snoc {pe : ℕ} (h : Wrote m xs new done t) (hpe : pe ∈ new) (hd : done ⊆ new)
    (h' : Wrote t (putEvents m.ev.isHigh (m.pl.lasthigh, xs) done).2 [pe] [pe] u) :
    Wrote m xs new (done ++ [pe]) u := by
  have hput : putEvents m.ev.isHigh (m.pl.lasthigh, xs) (done ++ [pe]) =
      putEvents t.ev.isHigh
        (t.pl.lasthigh, (putEvents m.ev.isHigh (m.pl.lasthigh, xs) done).2) [pe] := by
    rw [putEvents_append, h.frame.isHigh, h.lasthigh_eq]
  have hsub : (putEvents m.ev.isHigh (m.pl.lasthigh, xs) done).2 ++ [pe] ⊆ xs ++ new := by
    intro a ha
    rw [List.mem_append, mem_putEvents, List.mem_singleton] at ha
    rcases ha with (ha | ha) | rfl
    · exact List.mem_append_left _ ha
    · exact List.mem_append_right _ (hd ha)
    · exact List.mem_append_right _ hpe
  refine ⟨?_, ?_, ?_, ?_⟩
  · exact (h.frame.mono (fun _ h => h) (by simp)).trans (h'.frame.mono hsub (by simp))
  · rw [hput]
    exact h'.isList
  · rw [hput]
    exact h'.lasthigh_eq
  · intro a ha
    by_cases hap : a = pe
    · exact h'.owned a (by simp [hap])
    · have ha' : a ∈ done := by simpa [hap] using ha
      rw [h'.frame.owner a (by simpa using hap), h.owned a ha']

/-- **`et_station_write` on the events one after the other.** -/
theorem wp_each_stationWrite {nevents : ℕ} (h : OutputReady m xs) (hnd : new.Nodup)
    (hdis : ∀ a ∈ new, a ∉ xs) (hfits : xs.length + new.length ≤ nevents) :
    wp (each (stationWrite nevents) new) (fun _ => True)
      (fun rs t => rs = List.replicate new.length .ok ∧ Wrote m xs new new t ∧
        t.fix.start = 0) m := by
  refine wp_each (I := fun done t => Wrote m xs new done t ∧ t.fix.start = 0)
    (List.nil_append new).symm ⟨.start h.isList, h.quiet⟩ (fun _ _ _ => trivial) ?_
  rintro done pe t hpre ⟨hw, hs⟩
  have hpe : pe ∈ new := hpre.subset (by simp)
  have hdone : done ⊆ new := fun a ha => hpre.subset (by simp [ha])
  have hlen : done.length + 1 ≤ new.length := by simpa using hpre.length_le
  have hcnt : t.pl.cnt = xs.length + done.length := by
    rw [hw.isList.cnt_eq, length_putEvents]
  -- the event is not in the list yet: it is none of the old ones, and no event comes twice
  have hnot : pe ∉ (putEvents m.ev.isHigh (m.pl.lasthigh, xs) done).2 := by
    rw [mem_putEvents]
    rintro (hx | hd)
    · exact hdis pe hpe hx
    · exact notMem_of_snoc_prefix hpre hnd hd
  have hle : t.pl.lasthigh ≤ (putEvents m.ev.isHigh (m.pl.lasthigh, xs) done).2.length := by
    rw [hw.lasthigh_eq]
    exact putEvents_le h.highFirst.le
  refine wp_mono (wp_stationWrite hw.isList hs hle hnot)
    (fun _ _ => trivial) ?_
  rintro r u - ⟨hroom, -⟩
  obtain ⟨hr, hu, hs'⟩ := hroom (by omega)
  exact ⟨hr, hw.snoc hpe hdone hu, hs'⟩

/-- A write of a whole batch determines the list's header and the owners. -/
theorem Wrote.unique (ht : Wrote m xs new new t) (hu : Wrote m xs new new u)
    (hne : new ≠ []) : t.pl = u.pl ∧ t.ev.owner = u.ev.owner := by
  have hys : (putEvents m.ev.isHigh (m.pl.lasthigh, xs) new).2 ≠ [] := by
    intro hnil
    have hlen := @length_putEvents m.ev.isHigh (m.pl.lasthigh, xs) new
    rw [hnil] at hlen
    have : new.length ≠ 0 := by simpa using hne
    simp at hlen
    omega
  constructor
  · obtain ⟨htry, hin, hout⟩ := ht.frame.counters
    obtain ⟨htry', hin', hout'⟩ := hu.frame.counters
    apply EtList.ext
    · exact ht.isList.cnt_eq.trans hu.isList.cnt_eq.symm
    · exact ht.lasthigh_eq.trans hu.lasthigh_eq.symm
    · exact htry.trans htry'.symm
    · exact hin.trans hin'.symm
    · exact hout.trans hout'.symm
    · exact (ht.isList.spans.first_eq hys).trans (hu.isList.spans.first_eq hys).symm
    · exact (ht.isList.spans.last_eq hys).trans (hu.isList.spans.last_eq hys).symm
  · funext a
    by_cases ha : a ∈ new
    · rw [ht.owned a ha, hu.owned a ha]
    · rw [ht.frame.owner a ha, hu.frame.owner a ha]

end Writing

/-- **A batch written is its events written one after the other.**  For every
well-formed output list and every sequence of different events of the caller that fits,
both ways of writing succeed and leave the same count, the same number of high-priority
events, the same ends of the list and the same owners; and both lists are the old
high-priority events, the new ones in order, the other old events, the other new ones
in order. -/
theorem stationNwrite_eq_each (nevents : ℕ) (m : OutMem) (xs new : List ℕ) (att : ℕ)
    (h : OutputReady m xs) (hnew : Held m.ev att new)
    (hfits : xs.length + new.length ≤ nevents) :
    let batch := final (stationNwrite nevents new) m
    let single := final (each (stationWrite nevents) new) m
    let written := xs.filter m.ev.isHigh ++ new.filter m.ev.isHigh ++
      ((xs.filter fun e => !m.ev.isHigh e) ++ new.filter fun e => !m.ev.isHigh e)
    value (stationNwrite nevents new) m = .ok ∧
    value (each (stationWrite nevents) new) m = List.replicate new.length .ok ∧
    OutputReady batch written ∧ OutputReady single written ∧
    batch.pl = single.pl ∧ batch.ev.owner = single.ev.owner := by
  intro batch single written
  have hdis := hnew.notMem h.owned
  have hroom : new.length ≤ nevents - m.pl.cnt := by rw [h.isList.cnt_eq]; omega
  obtain ⟨-, hdone⟩ := @wp_stationNwrite _ _ _ nevents h.isList h.quiet h.highFirst.le
    hnew.nodup hdis
  obtain ⟨hok, hbatch, hs⟩ := hdone.1 hroom
  obtain ⟨-, hoks, hsingle, hs'⟩ := wp_each_stationWrite h hnew.nodup hdis hfits
  have hput := h.highFirst.putEvents_eq new
  have ready : ∀ t, Wrote m xs new new t → t.fix.start = 0 → OutputReady t written := by
    intro t ht hq
    have hys : (putEvents m.ev.isHigh (m.pl.lasthigh, xs) new).2 = written := by rw [hput]
    have hfirst := h.highFirst.putEvents new
    rw [← Prod.mk.eta (p := putEvents m.ev.isHigh (m.pl.lasthigh, xs) new), hys,
      ← ht.lasthigh_eq] at hfirst
    refine ⟨hys ▸ ht.isList, ht.frame.isHigh ▸ hfirst, ?_, hq⟩
    intro e he
    by_cases hn : e ∈ new
    · exact ht.owned e hn
    · rw [← hys, mem_putEvents] at he
      rw [ht.frame.owner e hn, h.owned e (he.resolve_right hn)]
  refine ⟨hok, hoks, ready _ hbatch hs, ready _ hsingle hs', ?_⟩
  by_cases hne : new = []
  · subst hne
    exact ⟨rfl, rfl⟩
  · exact hbatch.unique hsingle hne

/-- A low event in the list, a high and a low one written. -/
theorem stationNwrite_eq_each_example :
    (final (stationNwrite 3 [1, 2]) outputExample).pl =
        (final (each (stationWrite 3) [1, 2]) outputExample).pl ∧
      OutputReady (final (stationNwrite 3 [1, 2]) outputExample) [1, 0, 2] := by
  have h := stationNwrite_eq_each 3 outputExample [0] [1, 2] 0
    ⟨outputExample_isList, ⟨by decide, by decide, by decide⟩, by decide, rfl⟩
    ⟨by decide, by decide⟩ (by decide)
  exact ⟨h.2.2.2.2.1, h.2.2.1⟩

/-! ## GRAND_CENTRAL's list -/

/-- **A well-formed input list of GRAND_CENTRAL** `xs` that nobody is working on. -/
structure GcReady (m : InMem) (xs : List ℕ) : Prop where
  isList : IsList m.ev m.pl xs
  owned : ∀ e ∈ xs, m.ev.owner e = etSys
  quiet : m.fix.start = 0

section Dumping

variable {m t u : InMem} {xs new done : List ℕ}

/-- One more dump of a batch. -/
theorem GcWrote.snoc {pe : ℕ} (h : GcWrote m xs new done t) (hpe : pe ∈ new) (hd : done ⊆ new)
    (h' : GcWrote t (xs ++ done) [pe] [pe] u) : GcWrote m xs new (done ++ [pe]) u where
  frame :=
    { hdr := h'.frame.hdr.trans h.frame.hdr
      next := by
        intro a ha
        rw [List.mem_append, not_or] at ha
        have hap : a ≠ pe := fun he => ha.2 (he ▸ hpe)
        have had : a ∉ done := fun hm => ha.2 (hd hm)
        rw [h'.frame.next a (by simp [ha.1, had, hap]), h.frame.next a (by simp [ha.1, ha.2])]
      owner := by
        intro a ha
        rw [List.mem_append, not_or] at ha
        rw [h'.frame.owner a ha.2, h.frame.owner a ha.1]
      list := ⟨h'.frame.list.1.trans h.frame.list.1,
        h'.frame.list.2.1.trans h.frame.list.2.1, h'.frame.list.2.2.trans h.frame.list.2.2⟩
      first := h'.frame.first.trans h.frame.first }
  isList := by
    rw [← List.append_assoc]
    exact h'.isList
  owned := by
    intro a ha
    by_cases hap : a = pe
    · exact h'.owned a (by simp [hap])
    · have ha' : a ∈ done := by simpa [hap] using ha
      rw [h'.frame.owner a (by simpa using hap), h.owned a ha']

/-- A single dump counts its event. -/
theorem wp_stationDump_eventsIn {nevents pe : ℕ} (hroom : m.pl.cnt < nevents) :
    wp (stationDump nevents pe) (fun _ => True)
      (fun _ u => u.pl.eventsIn = m.pl.eventsIn + 1) m := by
  have hfull : ¬ nevents ≤ m.pl.cnt := not_le.mpr hroom
  simp only [stationDump, noteDump, wp_bind, wp_get, wp_ite, if_neg hfull, true_and]
  by_cases hz : m.pl.cnt = 0
  · simp [hz]
  · simp [hz]

/-- **`et_station_dump` on the events one after the other**: every event is counted. -/
theorem wp_each_stationDump {nevents : ℕ} (h : GcReady m xs) (hnd : new.Nodup)
    (hdis : ∀ a ∈ new, a ∉ xs) (hfits : xs.length + new.length ≤ nevents) :
    wp (each (stationDump nevents) new) (fun _ => True)
      (fun rs t => rs = List.replicate new.length .ok ∧ GcWrote m xs new new t ∧
        t.fix.start = 0 ∧ t.pl.eventsIn = m.pl.eventsIn + new.length) m := by
  refine wp_each (I := fun done t => GcWrote m xs new done t ∧ t.fix.start = 0 ∧
      t.pl.eventsIn = m.pl.eventsIn + done.length)
    (List.nil_append new).symm ⟨.start h.isList, h.quiet, rfl⟩ (fun _ _ _ => trivial) ?_
  rintro done pe t hpre ⟨hw, hs, hin⟩
  have hpe : pe ∈ new := hpre.subset (by simp)
  have hdone : done ⊆ new := fun a ha => hpre.subset (by simp [ha])
  have hlen : done.length + 1 ≤ new.length := by simpa using hpre.length_le
  have hcnt : t.pl.cnt = xs.length + done.length := by
    rw [hw.isList.cnt_eq, List.length_append]
  have hnot : pe ∉ xs ++ done := by
    rw [List.mem_append]
    rintro (hx | hd)
    · exact hdis pe hpe hx
    · exact notMem_of_snoc_prefix hpre hnd hd
  obtain ⟨-, hroom, -⟩ := @wp_stationDump _ _ _ nevents hw.isList hs hnot
  obtain ⟨-, hin'⟩ := @wp_stationDump_eventsIn t nevents pe (by omega)
  obtain ⟨hr, hu, hs'⟩ := hroom (by omega)
  refine ⟨fun _ _ => trivial, hr, hw.snoc hpe hdone hu, hs', ?_⟩
  rw [hin', hin, List.length_append, List.length_singleton, Nat.add_assoc]

/-- A dump of a whole batch determines the owners, and the list's header up to the count
of the events that came in. -/
theorem GcWrote.unique (ht : GcWrote m xs new new t) (hu : GcWrote m xs new new u)
    (hne : new ≠ []) :
    u.pl = { t.pl with eventsIn := u.pl.eventsIn } ∧ t.ev.owner = u.ev.owner := by
  have hys : xs ++ new ≠ [] := by simp [hne]
  constructor
  · obtain ⟨hhigh, htry, hout⟩ := ht.frame.list
    obtain ⟨hhigh', htry', hout'⟩ := hu.frame.list
    apply EtList.ext
    · exact hu.isList.cnt_eq.trans ht.isList.cnt_eq.symm
    · exact hhigh'.trans hhigh.symm
    · exact htry'.trans htry.symm
    · rfl
    · exact hout'.trans hout.symm
    · exact (hu.isList.spans.first_eq hys).trans (ht.isList.spans.first_eq hys).symm
    · exact (hu.isList.spans.last_eq hys).trans (ht.isList.spans.last_eq hys).symm
  · funext a
    by_cases ha : a ∈ new
    · rw [ht.owned a ha, hu.owned a ha]
    · rw [ht.frame.owner a ha, hu.frame.owner a ha]

theorem GcWrote.ready (ht : GcWrote m xs new new t) (h : GcReady m xs)
    (hs : t.fix.start = 0) : GcReady t (xs ++ new) := by
  refine ⟨ht.isList, fun e he => ?_, hs⟩
  by_cases hn : e ∈ new
  · exact ht.owned e hn
  · rw [ht.frame.owner e hn, h.owned e ((List.mem_append.mp he).resolve_right hn)]

end Dumping

/-- **The same state of GRAND_CENTRAL** in two memories: the same nodes `ys` in the same
order, the same header (both ends, the count, the statistics) and the same owners. -/
structure SameGcState (t u : InMem) (ys : List ℕ) : Prop where
  left : GcReady t ys
  right : GcReady u ys
  pl_eq : t.pl = u.pl
  owner_eq : t.ev.owner = u.ev.owner

/-- **A batch dumped against its events dumped one after the other.**  For every
well-formed input list of GRAND_CENTRAL and every sequence of different events of the
caller that fits, both ways succeed, append the events in order, and agree on the
owners and on every field of the list but `events_in`, which only the single dumps
advance.  So GRAND_CENTRAL is in the same state exactly if the batch is empty. -/
theorem stationNdump_eq_each_iff (nevents : ℕ) (m : InMem) (xs new : List ℕ) (att : ℕ)
    (h : GcReady m xs) (hnew : Held m.ev att new) (hfits : xs.length + new.length ≤ nevents) :
    let batch := final (stationNdump nevents new) m
    let single := final (each (stationDump nevents) new) m
    value (stationNdump nevents new) m = .ok ∧
    value (each (stationDump nevents) new) m = List.replicate new.length .ok ∧
    GcReady batch (xs ++ new) ∧ GcReady single (xs ++ new) ∧
    single.pl = { batch.pl with eventsIn := batch.pl.eventsIn + new.length } ∧
    batch.ev.owner = single.ev.owner ∧
    (SameGcState batch single (xs ++ new) ↔ new = []) := by
  intro batch single
  have hdis := hnew.notMem h.owned
  have hroom : new.length ≤ nevents - m.pl.cnt := by rw [h.isList.cnt_eq]; omega
  obtain ⟨-, hdone⟩ := @wp_stationNdump _ _ _ nevents h.isList h.quiet hnew.nodup hdis
  obtain ⟨hok, hbatch, hs⟩ := hdone.1 hroom
  obtain ⟨-, hin, -⟩ := wp_stationNdump_owner h.quiet hroom
  obtain ⟨-, hoks, hsingle, hs', hin'⟩ := wp_each_stationDump h hnew.nodup hdis hfits
  have hr := hbatch.ready h hs
  have hr' := hsingle.ready h hs'
  have hcount : single.pl.eventsIn = batch.pl.eventsIn + new.length := by
    rw [show batch.pl.eventsIn = m.pl.eventsIn from hin]
    exact hin'
  have hagree : single.pl = { batch.pl with eventsIn := batch.pl.eventsIn + new.length } ∧
      batch.ev.owner = single.ev.owner := by
    by_cases hne : new = []
    · subst hne
      exact ⟨rfl, rfl⟩
    · rw [← hcount]
      exact hbatch.unique hsingle hne
  refine ⟨hok, hoks, hr, hr', hagree.1, hagree.2, fun hsame => ?_, fun hnil => ?_⟩
  · have heq : batch.pl.eventsIn = single.pl.eventsIn := congrArg EtList.eventsIn hsame.pl_eq
    rw [hcount] at heq
    exact List.length_eq_zero_iff.mp (by omega)
  · refine ⟨hr, hr', ?_, hagree.2⟩
    rw [hagree.1, hnil]
    rfl

theorem stationNdump_eq_each_example :
    SameGcState (final (stationNdump 3 [1, 2]) gcExample)
      (final (each (stationDump 3) [1, 2]) gcExample) [0, 1, 2] ↔ [1, 2] = ([] : List ℕ) :=
  (stationNdump_eq_each_iff 3 gcExample [0] [1, 2] 0
    ⟨⟨rfl, .singleton _ 0⟩, by decide, rfl⟩ ⟨by decide, by decide⟩
    (by decide)).2.2.2.2.2.2

/-- Two events dumped as a batch leave the count of the events that came in at 7; dumped
one after the other they advance it to 9. -/
theorem stationNdump_not_each :
    ¬ SameGcState (final (stationNdump 3 [1, 2]) gcExample)
      (final (each (stationDump 3) [1, 2]) gcExample) [0, 1, 2] := by
  intro h
  have heq : (7 : ℕ) = 9 := congrArg EtList.eventsIn h.pl_eq
  omega

end EventTransfer
