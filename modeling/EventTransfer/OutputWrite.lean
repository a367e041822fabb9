import EventTransfer.OutputList

/-!
# A write to an output list, store by store

What the two writers of an output list do to it, at every point of the way.

* `wp_linkEvent` — linking one event in stores two or three words; the list is the
  old one up to one of them and the new one from there on.
* `Wrote m xs new done t` — the list of `t` is the list `xs` of `m` with the events
  `done` of `new` written to it.
* `WriteCrash m xs new t` — `t` is a memory a dead writer leaves.
* `wp_stationWrite`, `wp_stationNwrite` — every crash state of a write is a
  `WriteCrash`, and a complete write is a `WriteDone`.
-/

namespace EventTransfer

open LinkedHeap StoreProgram StoreProgram.Prog

/-- Outside the links of `zs`, the owners of `new` and the header of the list `t`
is `m`. -/
structure OutFrame (m t : OutMem) (zs new : List ℕ) : Prop where
  hdr : t.ev.hdr = m.ev.hdr
  next : ∀ a, a ∉ zs → t.ev.next a = m.ev.next a
  owner : ∀ a, a ∉ new → t.ev.owner a = m.ev.owner a
  counters : t.pl.eventsTry = m.pl.eventsTry ∧ t.pl.eventsIn = m.pl.eventsIn ∧
    t.pl.eventsOut = m.pl.eventsOut

namespace OutFrame

variable {m t u : OutMem} {zs new : List ℕ}

theorem refl (m : OutMem) (zs new : List ℕ) : OutFrame m m zs new :=
  ⟨rfl, fun _ _ => rfl, fun _ _ => rfl, rfl, rfl, rfl⟩

theorem trans (h : OutFrame m t zs new) (h' : OutFrame t u zs new) :
    OutFrame m u zs new where
  hdr := h'.hdr.trans h.hdr
  next a ha := (h'.next a ha).trans (h.next a ha)
  owner a ha := (h'.owner a ha).trans (h.owner a ha)
  counters := ⟨h'.counters.1.trans h.counters.1, h'.counters.2.1.trans h.counters.2.1,
    h'.counters.2.2.trans h.counters.2.2⟩

theorem mono {zs' new' : List ℕ} (h : OutFrame m t zs new) (hz : zs ⊆ zs')
    (hn : new ⊆ new') : OutFrame m t zs' new' :=
  ⟨h.hdr, fun a ha => h.next a fun hm => ha (hz hm),
    fun a ha => h.owner a fun hm => ha (hn hm), h.counters⟩

theorem isHigh (h : OutFrame m t zs new) : t.ev.isHigh = m.ev.isHigh := by
  funext a
  simp [Events.isHigh, h.hdr]

end OutFrame

/-- The pointer to node number `k` of a list, counted from 1; null for 0. -/
def nodePtr (xs : List ℕ) (k : ℕ) : Option ℕ := if k = 0 then none else xs[k - 1]?

theorem findLasthigh_eq {m : OutMem} {xs : List ℕ} (h : IsList m.ev m.pl xs)
    (hk : m.pl.lasthigh ≤ xs.length) : findLasthigh m = nodePtr xs m.pl.lasthigh := by
  unfold findLasthigh nodePtr
  split
  · rfl
  · have hne : xs ≠ [] := by rintro rfl; simp at hk; omega
    rw [h.spans.first_eq hne, h.spans.linked.follow_eq (by omega)]

/-- Node number `k` of `ys ++ b :: zs` is `b` when `ys` has `k - 1` nodes. -/
theorem nodePtr_append_cons (ys zs : List ℕ) (b : ℕ) :
    nodePtr (ys ++ b :: zs) (ys.length + 1) = some b := by
  simp [nodePtr]

/-- What linking one event in does to a list that is not empty, given the pointers
to its last high and its last node.  `C` has to hold of every memory on the way
whose list is the old one or already the new one. -/
theorem wp_linkEvent {C : OutMem → Prop} {Q : Option ℕ × Option ℕ → OutMem → Prop}
    {m : OutMem} {xs : List ℕ} {pe : ℕ}
    (hs : Spans m.ev.next m.pl.firstevent m.pl.lastevent xs) (hne : xs ≠ [])
    (hk : m.pl.lasthigh ≤ xs.length) (hpe : pe ∉ xs)
    (hC : ∀ t : OutMem, OutFrame m t (pe :: xs) [] → t.pl.cnt = m.pl.cnt → t.fix = m.fix →
      (Spans t.ev.next t.pl.firstevent t.pl.lastevent xs ∨
        Spans t.ev.next t.pl.firstevent t.pl.lastevent
          (putEvent m.ev.isHigh (m.pl.lasthigh, xs) pe).2) → C t)
    (hQ : ∀ t : OutMem, OutFrame m t (pe :: xs) [] → t.pl.cnt = m.pl.cnt → t.fix = m.fix →
      t.pl.lasthigh = (putEvent m.ev.isHigh (m.pl.lasthigh, xs) pe).1 →
      Spans t.ev.next t.pl.firstevent t.pl.lastevent
        (putEvent m.ev.isHigh (m.pl.lasthigh, xs) pe).2 →
      Q (nodePtr (putEvent m.ev.isHigh (m.pl.lasthigh, xs) pe).2 t.pl.lasthigh,
        (putEvent m.ev.isHigh (m.pl.lasthigh, xs) pe).2.getLast?) t) :
    wp (linkEvent pe (nodePtr xs m.pl.lasthigh) xs.getLast?) C Q m := by
  have hC0 : C m := hC m (.refl _ _ _) rfl rfl (Or.inl hs)
  -- every link that is stored is one of the new event or of the list
  have frame : ∀ (e : ℕ) (v : Option ℕ) (t : OutMem), e ∈ pe :: xs →
      OutFrame m t (pe :: xs) [] → ∀ pl : EtList, (pl.eventsTry = t.pl.eventsTry ∧
        pl.eventsIn = t.pl.eventsIn ∧ pl.eventsOut = t.pl.eventsOut) →
      OutFrame m ⟨t.ev.setNext (some e) v, pl, m.fix⟩ (pe :: xs) [] := by
    intro e v t he ht pl hpl
    refine ht.trans ⟨by simp, fun a ha => ?_, fun a _ => by simp, hpl⟩
    have hae : a ≠ e := fun h => ha (h ▸ he)
    exact Function.update_of_ne hae _ _
  obtain ⟨ys, b, hxs⟩ : ∃ ys b, xs = ys ++ [b] :=
    ⟨xs.dropLast, xs.getLast hne, (List.dropLast_append_getLast hne).symm⟩
  have hlast : xs.getLast? = some b := by simp [hxs]
  have hb : b ∈ pe :: xs := by simp [hxs]
  -- what storing a link to the new event in the last node does
  have hlinked : Spans (m.ev.setNext (some b) (some pe)).next m.pl.firstevent
      m.pl.lastevent xs := by
    rw [hxs] at hs ⊢
    exact spans_setNext_last hs _
  have hback : Spans (m.ev.setNext (some b) (some pe)).next m.pl.firstevent (some pe)
      (xs ++ [pe]) := by
    rw [hxs] at hs hpe ⊢
    exact hs.push_back hpe
  unfold linkEvent
  simp only [wp_bind, wp_get, wp_ite, wp_store, wp_pure]
  refine ⟨hC0, ?_⟩
  split
  case isTrue hhigh =>
    have hput : putEvent m.ev.isHigh (m.pl.lasthigh, xs) pe =
        (m.pl.lasthigh + 1, xs.take m.pl.lasthigh ++ pe :: xs.drop m.pl.lasthigh) := by
      simp [putEvent, hhigh]
    rw [hput] at hC hQ
    split
    case isTrue hnone =>
      have hk0 : m.pl.lasthigh = 0 := by
        by_contra hk0
        simp [nodePtr, hk0] at hnone
        omega
      simp only [hk0, List.take_zero, List.nil_append, List.drop_zero, Nat.zero_add] at hC hQ
      have hmid := spans_setNext_of_notMem hs hpe m.pl.firstevent
      have hnew := hs.push_front hne hpe
      have F := frame pe m.pl.firstevent m (by simp) (.refl _ _ _)
      have hC1 := hC _ (F m.pl ⟨rfl, rfl, rfl⟩) rfl rfl (Or.inl hmid)
      have hC2 := hC _ (F { m.pl with firstevent := some pe } ⟨rfl, rfl, rfl⟩) rfl rfl
        (Or.inr hnew)
      have hC3 := hC _ (F { m.pl with firstevent := some pe, lasthigh := m.pl.lasthigh + 1 }
        ⟨rfl, rfl, rfl⟩) rfl rfl (Or.inr hnew)
      refine ⟨hC0, hC1, hC1, hC2, hC2, hC3, hC3, ?_⟩
      have := hQ _ (F { m.pl with firstevent := some pe, lasthigh := m.pl.lasthigh + 1 }
        ⟨rfl, rfl, rfl⟩) rfl rfl (by simp [hk0]) hnew
      simpa [nodePtr, hk0, hxs, List.getLast?_cons] using this
    case isFalse hsome =>
      have hk0 : m.pl.lasthigh ≠ 0 := fun h => hsome (by simp [nodePtr, h])
      split
      case isTrue hall =>
        -- the last high node is the last node, so the whole list is high
        have hkl : m.pl.lasthigh = xs.length := by
          rw [nodePtr, if_neg hk0, List.getLast?_eq_getElem?] at hall
          have := (List.nodup_iff_getElem?_ne_getElem?.mp hs.nodup (m.pl.lasthigh - 1)
            (xs.length - 1))
          by_contra hkl
          exact this (by omega) (by omega) hall
        have htake : xs.take m.pl.lasthigh ++ pe :: xs.drop m.pl.lasthigh = xs ++ [pe] := by
          simp [hkl]
        simp only [htake, hlast] at hC hQ ⊢
        have F := frame b (some pe) m hb (.refl _ _ _)
        have hC1 := hC _ (F m.pl ⟨rfl, rfl, rfl⟩) rfl rfl (Or.inl hlinked)
        have hC2 := hC _ (F { m.pl with lastevent := some pe } ⟨rfl, rfl, rfl⟩) rfl rfl
          (Or.inr hback)
        have hC3 := hC _ (F { m.pl with lastevent := some pe, lasthigh := m.pl.lasthigh + 1 }
          ⟨rfl, rfl, rfl⟩) rfl rfl (Or.inr hback)
        refine ⟨hC0, hC1, hC1, hC2, hC2, hC3, hC3, ?_⟩
        have := hQ _ (F { m.pl with lastevent := some pe, lasthigh := m.pl.lasthigh + 1 }
          ⟨rfl, rfl, rfl⟩) rfl rfl rfl hback
        simpa [nodePtr, hkl] using this
      case isFalse hmiddle =>
        have hkl : m.pl.lasthigh < xs.length := by
          refine lt_of_le_of_ne hk fun h => hmiddle ?_
          rw [nodePtr, if_neg hk0, h, List.getLast?_eq_getElem?]
        obtain ⟨k, hk'⟩ : ∃ k, m.pl.lasthigh = k + 1 := ⟨m.pl.lasthigh - 1, by omega⟩
        obtain ⟨us, a, vs, hsplit, hus⟩ : ∃ us a vs, xs = us ++ a :: vs ∧ us.length = k :=
          ⟨xs.take k, xs.get ⟨k, by omega⟩, xs.drop (k + 1), by simp, by simp; omega⟩
        have hvs : vs ≠ [] := by
          rintro rfl
          simp [hsplit, hus] at hkl
          omega
        have htake : xs.take m.pl.lasthigh = us ++ [a] := by
          rw [hk', hsplit, ← hus]
          simp [List.take_append]
        have hdrop : xs.drop m.pl.lasthigh = vs := by
          rw [hk', hsplit, ← hus]
          simp [List.drop_append]
        have hptr : nodePtr xs m.pl.lasthigh = some a := by
          rw [hk', hsplit, ← hus, nodePtr_append_cons]
        simp only [htake, hdrop, hptr, List.append_assoc, List.singleton_append,
          Option.bind_some] at hC hQ ⊢
        have ha : a ∈ pe :: xs := by simp [hsplit]
        have hmid := spans_setNext_of_notMem hs hpe (m.ev.next a)
        have hnew : Spans ((m.ev.setNext (some pe) (m.ev.next a)).setNext (some a) (some pe)).next
            m.pl.firstevent m.pl.lastevent (us ++ a :: pe :: vs) := by
          rw [hsplit] at hs hpe
          exact hs.insert_after hvs hpe
        have F := frame pe (m.ev.next a) m (by simp) (.refl _ _ _)
        have F' := frame a (some pe) _ ha (F m.pl ⟨rfl, rfl, rfl⟩)
        have hC1 := hC _ (F m.pl ⟨rfl, rfl, rfl⟩) rfl rfl (Or.inl hmid)
        have hC2 := hC _ (F' m.pl ⟨rfl, rfl, rfl⟩) rfl rfl (Or.inr hnew)
        have hC3 := hC _ (F' { m.pl with lasthigh := m.pl.lasthigh + 1 } ⟨rfl, rfl, rfl⟩)
          rfl rfl (Or.inr hnew)
        refine ⟨hC0, hC1, hC1, hC2, hC2, hC3, hC3, ?_⟩
        have := hQ _ (F' { m.pl with lasthigh := m.pl.lasthigh + 1 } ⟨rfl, rfl, rfl⟩)
          rfl rfl rfl hnew
        have hptr' : nodePtr (us ++ a :: pe :: vs) (m.pl.lasthigh + 1) = some pe := by
          simp [nodePtr, hk', ← hus]
        have hlast' : (us ++ a :: pe :: vs).getLast? = some b := by
          have happ : us ++ a :: pe :: vs = (us ++ [a, pe]) ++ vs := by simp
          have happ' : us ++ a :: vs = (us ++ [a]) ++ vs := by simp
          rw [← hlast, hsplit, happ, happ', List.getLast?_append_of_ne_nil _ hvs,
            List.getLast?_append_of_ne_nil _ hvs]
        simpa only [hptr', hlast', hlast] using this
  case isFalse hlow =>
    have hput : putEvent m.ev.isHigh (m.pl.lasthigh, xs) pe =
        (m.pl.lasthigh, xs ++ [pe]) := by
      simp [putEvent, hlow]
    rw [hput] at hC hQ
    simp only [hlast]
    have F := frame b (some pe) m hb (.refl _ _ _)
    have hC1 := hC _ (F m.pl ⟨rfl, rfl, rfl⟩) rfl rfl (Or.inl hlinked)
    have hC2 := hC _ (F { m.pl with lastevent := some pe } ⟨rfl, rfl, rfl⟩) rfl rfl
      (Or.inr hback)
    refine ⟨hC0, hC1, hC1, hC2, hC2, ?_⟩
    have := hQ _ (F { m.pl with lastevent := some pe } ⟨rfl, rfl, rfl⟩) rfl rfl rfl hback
    have hptr' : nodePtr (xs ++ [pe]) m.pl.lasthigh = nodePtr xs m.pl.lasthigh := by
      unfold nodePtr
      split
      · rfl
      · rw [List.getElem?_append_left (by omega)]
    simpa [hptr'] using this

/-- **The list after a write of `done`**: it holds the old events and `done`, its
cached count is right, and the events of `done` belong to the system.  Links of
events of `new` that are not in yet may have been stored. -/
structure Wrote (m : OutMem) (xs new done : List ℕ) (t : OutMem) : Prop where
  frame : OutFrame m t (xs ++ new) done
  isList : IsList t.ev t.pl (putEvents m.ev.isHigh (m.pl.lasthigh, xs) done).2
  lasthigh_eq : t.pl.lasthigh = (putEvents m.ev.isHigh (m.pl.lasthigh, xs) done).1
  owned : ∀ a ∈ done, t.ev.owner a = etSys

/-- **What a dead writer leaves.**  Either the list is whole, and the repair notes
say so in one of three ways; or the events `done` have been linked in but the count
does not show all of them. -/
inductive WriteCrash (m : OutMem) (xs new : List ℕ) (t : OutMem) : Prop
  | whole (done : List ℕ) (pre : done <+: new) (wrote : Wrote m xs new done t)
      (note : t.fix.start = 0 ∨ t.pl.cnt = t.fix.cnt + t.fix.num ∨
        t.pl.cnt = 0 ∧ t.pl.firstevent = none)
  | linking (done : List ℕ) (pre : done <+: new)
      (frame : OutFrame m t (xs ++ new) done) (start : t.fix.start ≠ 0)
      (cnt_ne : t.pl.cnt ≠ t.fix.cnt + t.fix.num)
      (num_eq : t.fix.cnt + t.fix.num = xs.length + new.length)
      (ne : (putEvents m.ev.isHigh (m.pl.lasthigh, xs) done).2 ≠ [])
      (spans : Spans t.ev.next t.pl.firstevent
        (if t.pl.cnt = 0 then t.pl.firstevent else t.pl.lastevent)
        (putEvents m.ev.isHigh (m.pl.lasthigh, xs) done).2)

/-- The repair notes while `new` is written to a list of `n` events. -/
structure Noted (n : ℕ) (new : List ℕ) (fix : FixOut) : Prop where
  cnt_eq : fix.cnt = n
  num_eq : fix.num = new.length
  start_eq : fix.start = 1

section Writing

variable {m t : OutMem} {xs new done : List ℕ}

/-- Between two events the list is one a dead writer may leave. -/
theorem Wrote.crash (hw : Wrote m xs new done t) (hn : Noted xs.length new t.fix)
    (hpre : done <+: new) (hne : (putEvents m.ev.isHigh (m.pl.lasthigh, xs) done).2 ≠ []) :
    WriteCrash m xs new t := by
  by_cases hcnt : t.pl.cnt = t.fix.cnt + t.fix.num
  · exact .whole done hpre hw (Or.inr (Or.inl hcnt))
  · have hcnt0 : t.pl.cnt ≠ 0 := by
      rw [hw.isList.cnt_eq]
      exact fun h => hne (List.length_eq_zero_iff.mp h)
    have hnum : t.fix.cnt + t.fix.num = xs.length + new.length := by rw [hn.cnt_eq, hn.num_eq]
    refine .linking done hpre hw.frame (by simp [hn.start_eq]) hcnt hnum hne ?_
    rw [if_neg hcnt0]
    exact hw.isList.spans

/-- **Writing one event** `pe` after `done`, up to the store of its owner and of the
count: every memory on the way is one the repair knows. -/
theorem wp_linkEvent_write {pe : ℕ} (hpre : done ++ [pe] <+: new) (hnd : new.Nodup)
    (hdis : ∀ a ∈ new, a ∉ xs) (hk : m.pl.lasthigh ≤ xs.length) (hw : Wrote m xs new done t)
    (hn : Noted xs.length new t.fix)
    (hne : (putEvents m.ev.isHigh (m.pl.lasthigh, xs) done).2 ≠ []) :
    wp (linkEvent pe
        (nodePtr (putEvents m.ev.isHigh (m.pl.lasthigh, xs) done).2 t.pl.lasthigh)
        (putEvents m.ev.isHigh (m.pl.lasthigh, xs) done).2.getLast?)
      (WriteCrash m xs new)
      (fun p u => p = (nodePtr (putEvents m.ev.isHigh (m.pl.lasthigh, xs) (done ++ [pe])).2
            u.pl.lasthigh,
          (putEvents m.ev.isHigh (m.pl.lasthigh, xs) (done ++ [pe])).2.getLast?) ∧
        u.fix = t.fix ∧
        WriteCrash m xs new { u with ev := u.ev.setOwner pe etSys } ∧
        Wrote m xs new (done ++ [pe])
          { u with ev := u.ev.setOwner pe etSys, pl.cnt := u.pl.cnt + 1 }) t := by
  set p := putEvents m.ev.isHigh (m.pl.lasthigh, xs) done with hp
  have hput : putEvents m.ev.isHigh (m.pl.lasthigh, xs) (done ++ [pe]) =
      putEvent m.ev.isHigh p pe := by rw [putEvents_append, ← hp]; rfl
  have hhigh := hw.frame.isHigh
  have hple : p.1 ≤ p.2.length := putEvents_le hk
  have hplen : p.2.length = xs.length + done.length := length_putEvents
  have hpenew : pe ∈ new := hpre.subset (by simp)
  have hpe : pe ∉ p.2 := by
    rw [hp, mem_putEvents, not_or]
    refine ⟨hdis pe hpenew, fun hd => ?_⟩
    exact (List.nodup_append.mp (hnd.sublist hpre.sublist)).2.2 pe hd pe (by simp) rfl
  have hpre0 : done <+: new := (List.prefix_append done [pe]).trans hpre
  have hsub : pe :: p.2 ⊆ xs ++ new := by
    intro a ha
    simp only [hp, List.mem_cons, mem_putEvents] at ha
    rcases ha with rfl | ha | ha
    · exact List.mem_append_right _ hpenew
    · exact List.mem_append_left _ ha
    · exact List.mem_append_right _ (hpre0.subset ha)
  have hcnt0 : t.pl.cnt ≠ 0 := by
    rw [hw.isList.cnt_eq]
    exact fun h => hne (List.length_eq_zero_iff.mp h)
  have hp' : (t.pl.lasthigh, p.2) = p := by rw [hw.lasthigh_eq]
  -- until the count is stored the memory is a list being linked
  have crash : ∀ u : OutMem, OutFrame t u (pe :: p.2) [pe] → u.pl.cnt = t.pl.cnt →
      u.fix = t.fix → (OutFrame t u (pe :: p.2) [] ∧
          Spans u.ev.next u.pl.firstevent u.pl.lastevent p.2 ∨
        Spans u.ev.next u.pl.firstevent u.pl.lastevent (putEvent m.ev.isHigh p pe).2) →
      WriteCrash m xs new u := by
    intro u hu hcnt hfix hspans
    have hstart : u.fix.start ≠ 0 := by simp [hfix, hn.start_eq]
    have hnum : u.fix.cnt + u.fix.num = xs.length + new.length := by
      rw [hfix, hn.cnt_eq, hn.num_eq]
    have hlt : u.pl.cnt ≠ u.fix.cnt + u.fix.num := by
      have := hpre.length_le
      rw [List.length_append, List.length_singleton] at this
      rw [hnum, hcnt, hw.isList.cnt_eq, hplen]
      omega
    rcases hspans with ⟨hu', hs⟩ | hs
    · refine .linking done hpre0 (hw.frame.trans (hu'.mono hsub (by simp))) hstart hlt hnum
        hne ?_
      simpa [hcnt, hcnt0] using hs
    · refine .linking (done ++ [pe]) hpre ?_ hstart hlt hnum ?_ ?_
      · exact (hw.frame.mono (fun _ h => h) (by simp)).trans (hu.mono hsub (by simp))
      · rw [hput]
        exact putEvent_ne_nil
      · rw [hput]
        simpa [hcnt, hcnt0] using hs
  refine wp_linkEvent hw.isList.spans hne (by rw [hw.lasthigh_eq]; exact hple) hpe ?_ ?_
  · intro u hu hcnt hfix hs
    rw [hp', hhigh] at hs
    refine crash u (hu.mono (fun _ h => h) (by simp)) hcnt hfix ?_
    exact hs.imp (fun h => ⟨hu, h⟩) id
  · intro u hu hcnt hfix hlast hs
    rw [hp', hhigh] at hs hlast
    rw [hp', hhigh, hput]
    have hu' : OutFrame t { u with ev := u.ev.setOwner pe etSys } (pe :: p.2) [pe] := by
      refine ⟨hu.hdr, hu.next, fun a ha => ?_, hu.counters⟩
      rw [Events.setOwner_owner, Function.update_of_ne (by simpa using ha)]
      exact hu.owner a (by simp)
    refine ⟨rfl, hfix, crash _ hu' hcnt hfix (Or.inr hs), ?_, ⟨?_, ?_⟩, ?_, ?_⟩
    · have hu'' : OutFrame t { u with ev := u.ev.setOwner pe etSys, pl.cnt := u.pl.cnt + 1 }
          (pe :: p.2) [pe] := ⟨hu'.hdr, hu'.next, hu'.owner, hu'.counters⟩
      exact (hw.frame.mono (fun _ h => h) (by simp)).trans (hu''.mono hsub (by simp))
    · rw [hput]
      show u.pl.cnt + 1 = _
      rw [hcnt, hw.isList.cnt_eq, putEvent_perm.length_eq, List.length_cons]
    · rw [hput]
      exact hs
    · rw [hput]
      exact hlast
    · intro a ha
      rcases List.mem_append.mp ha with ha | ha
      · show Function.update u.ev.owner pe etSys a = etSys
        rw [Function.update_apply]
        split
        · rfl
        · rw [hu.owner a (by simp), hw.owned a ha]
      · obtain rfl := List.mem_singleton.mp ha
        exact Function.update_self _ _ _

/-- **The loop of `et_station_nwrite`**: with `done` in the list, it writes the
rest. -/
theorem wp_nwriteLoop {rest : List ℕ} (hnew : new = done ++ rest) (hnd : new.Nodup)
    (hdis : ∀ a ∈ new, a ∉ xs) (hk : m.pl.lasthigh ≤ xs.length) (hw : Wrote m xs new done t)
    (hn : Noted xs.length new t.fix)
    (hne : (putEvents m.ev.isHigh (m.pl.lasthigh, xs) done).2 ≠ []) :
    wp (nwriteLoop rest
        (nodePtr (putEvents m.ev.isHigh (m.pl.lasthigh, xs) done).2 t.pl.lasthigh)
        (putEvents m.ev.isHigh (m.pl.lasthigh, xs) done).2.getLast?)
      (WriteCrash m xs new) (fun _ u => Wrote m xs new new u ∧ Noted xs.length new u.fix) t := by
  induction rest generalizing done t with
  | nil =>
      obtain rfl : new = done := by simpa using hnew
      simp only [nwriteLoop, wp_pure]
      exact ⟨hw.crash hn (List.prefix_refl _) hne, hw, hn⟩
  | cons pe rest ih =>
      have hnew' : new = (done ++ [pe]) ++ rest := by simp [hnew]
      have hpre : done ++ [pe] <+: new := ⟨rest, hnew'.symm⟩
      have hne' : (putEvents m.ev.isHigh (m.pl.lasthigh, xs) (done ++ [pe])).2 ≠ [] := by
        rw [putEvents_append]
        exact putEvent_ne_nil
      unfold nwriteLoop
      simp only [wp_bind, wp_store]
      refine wp_mono (wp_linkEvent_write hpre hnd hdis hk hw hn hne) (fun _ h => h) ?_
      rintro p u hu ⟨rfl, hfix, hcrash, hw'⟩
      have hn' : Noted xs.length new u.fix := hfix ▸ hn
      exact ⟨hu, hcrash, hcrash, hw'.crash hn' hpre hne', ih hnew' hw' hn' hne'⟩

theorem Wrote.start (h : IsList m.ev m.pl xs) : Wrote m xs new [] m :=
  ⟨.refl _ _ _, by simpa using h, rfl, by simp⟩

/-- The repair notes are no part of the list. -/
theorem Wrote.setFix (h : Wrote m xs new done t) (f : FixOut) :
    Wrote m xs new done { t with fix := f } :=
  ⟨⟨h.frame.hdr, h.frame.next, h.frame.owner, h.frame.counters⟩, h.isList, h.lasthigh_eq,
    h.owned⟩

/-- An empty list does not use its pointers. -/
theorem Wrote.setFirst (h : Wrote m [] new [] t) (p : Option ℕ) :
    Wrote m [] new [] { t with pl.firstevent := p } :=
  ⟨⟨h.frame.hdr, h.frame.next, h.frame.owner, h.frame.counters⟩,
    ⟨h.isList.cnt_eq, .nil _ _ _⟩, h.lasthigh_eq, h.owned⟩

theorem Wrote.cnt_eq_zero_iff (h : Wrote m xs new [] t) : t.pl.cnt = 0 ↔ xs = [] := by
  rw [h.isList.cnt_eq, putEvents_nil, List.length_eq_zero_iff]

/-- The repair notes are stored before the list is touched; the first of these
stores clears `firstevent` in an empty list. -/
theorem wp_noteWrite (h : IsList m.ev m.pl xs) (h0 : m.fix.start = 0) :
    wp (noteWrite new.length) (WriteCrash m xs new)
      (fun _ t => t.ev = m.ev ∧ Wrote m xs new [] t ∧ Noted xs.length new t.fix ∧
        (xs ≠ [] → t.pl = m.pl)) m := by
  have hw : Wrote m xs new [] m := .start h
  have crash : ∀ t, Wrote m xs new [] t → t.fix.start = 0 → WriteCrash m xs new t :=
    fun t ht hs => .whole [] List.nil_prefix ht (Or.inl hs)
  have notes : ∀ t : OutMem, t.ev = m.ev → Wrote m xs new [] t → t.fix.start = 0 →
      (xs = [] → t.pl.firstevent = none) → (xs ≠ [] → t.pl = m.pl) →
      wp (do store fun t => { t with fix.cnt := t.pl.cnt }
             store fun t => { t with fix.num := new.length }
             store fun t => { t with fix.start := t.fix.start + 1 })
        (WriteCrash m xs new)
        (fun _ t => t.ev = m.ev ∧ Wrote m xs new [] t ∧ Noted xs.length new t.fix ∧
          (xs ≠ [] → t.pl = m.pl)) t := by
    intro t hev ht hs hnil hpl
    have hcnt : t.pl.cnt = xs.length := ht.isList.cnt_eq
    have hc₁ := crash _ (ht.setFix { t.fix with cnt := t.pl.cnt }) hs
    have hc₂ := crash _ (ht.setFix { t.fix with cnt := t.pl.cnt, num := new.length }) hs
    have hw₃ := ht.setFix ⟨t.fix.start + 1, t.pl.cnt, new.length⟩
    have hn : Noted xs.length new ⟨t.fix.start + 1, t.pl.cnt, new.length⟩ :=
      ⟨hcnt, rfl, by simp [hs]⟩
    have hc₃ : WriteCrash m xs new { t with fix := ⟨t.fix.start + 1, t.pl.cnt, new.length⟩ } := by
      by_cases hne : xs = []
      · refine .whole [] List.nil_prefix hw₃ (Or.inr (Or.inr ⟨?_, hnil hne⟩))
        exact ht.cnt_eq_zero_iff.mpr hne
      · exact hw₃.crash hn List.nil_prefix hne
    simp only [wp_bind, wp_store]
    exact ⟨crash t ht hs, hc₁, hc₁, hc₂, hc₂, hc₃, hev, hw₃, hn, hpl⟩
  unfold noteWrite
  rw [wp_bind, wp_get]
  refine ⟨crash m hw h0, ?_⟩
  rw [wp_bind, wp_when]
  split
  case isTrue hz =>
    obtain rfl : xs = [] := hw.cnt_eq_zero_iff.mp hz
    have hw₁ := hw.setFirst none
    rw [wp_store]
    exact ⟨crash m hw h0, crash _ hw₁ h0,
      notes _ rfl hw₁ h0 (fun _ => rfl) (fun hne => absurd rfl hne)⟩
  case isFalse hz =>
    have hne : xs ≠ [] := fun hne => hz (hw.cnt_eq_zero_iff.mpr hne)
    exact ⟨crash m hw h0, notes m rfl hw h0 (fun hc => absurd hc hne) (fun _ => rfl)⟩

/-- The first event written to an empty list is announced by `firstevent` alone:
the count is stored last. -/
theorem Wrote.announce {pe : ℕ} (hw : Wrote m [] new [] t) (hn : Noted 0 new t.fix)
    (hpre : [pe] <+: new) (hk : m.pl.lasthigh = 0) {ev : Events}
    (hev : ev = t.ev ∨ ev = t.ev.setOwner pe etSys) (lasthigh : ℕ) (last : Option ℕ) :
    WriteCrash m [] new { t with
      ev := ev
      pl := { t.pl with lasthigh := lasthigh, firstevent := some pe, lastevent := last } } := by
  have hput : (putEvents m.ev.isHigh (m.pl.lasthigh, []) [pe]).2 = [pe] := by
    rw [hk, putEvents_empty]
  have hcnt : t.pl.cnt = 0 := hw.cnt_eq_zero_iff.mpr rfl
  have hlen := hpre.length_le
  rw [List.length_singleton] at hlen
  refine .linking [pe] hpre ?_ (by simp [hn.start_eq]) ?_ ?_ ?_ ?_
  · refine (hw.frame.mono (fun _ h => h) (by simp)).trans ?_
    rcases hev with rfl | rfl
    · exact ⟨rfl, fun _ _ => rfl, fun _ _ => rfl, rfl, rfl, rfl⟩
    · exact ⟨rfl, fun _ _ => rfl,
        fun a ha => Function.update_of_ne (by simpa using ha) _ _, rfl, rfl, rfl⟩
  · show t.pl.cnt ≠ t.fix.cnt + t.fix.num
    rw [hcnt, hn.cnt_eq, hn.num_eq]
    omega
  · show t.fix.cnt + t.fix.num = _
    rw [hn.cnt_eq, hn.num_eq, List.length_nil]
  · rw [hput]
    exact List.cons_ne_nil pe []
  · rw [hput, if_pos hcnt]
    exact .singleton _ pe

/-- With the count stored the first event is in. -/
theorem Wrote.first {pe : ℕ} (hw : Wrote m [] new [] t) (hk : m.pl.lasthigh = 0) :
    Wrote m [] new [pe] { t with
      ev := t.ev.setOwner pe etSys
      pl := { t.pl with
        cnt := t.pl.cnt + 1, firstevent := some pe, lastevent := some pe
        lasthigh := if m.ev.isHigh pe then 1 else t.pl.lasthigh } } := by
  have hput : putEvents m.ev.isHigh (m.pl.lasthigh, []) [pe] =
      (if m.ev.isHigh pe then 1 else 0, [pe]) := by rw [hk, putEvents_empty]
  have hcnt : t.pl.cnt = 0 := hw.cnt_eq_zero_iff.mpr rfl
  have hlast : t.pl.lasthigh = 0 := hw.lasthigh_eq.trans hk
  refine ⟨(hw.frame.mono (fun _ h => h) (by simp)).trans ⟨rfl, fun _ _ => rfl,
    fun a ha => Function.update_of_ne (by simpa using ha) _ _, rfl, rfl, rfl⟩, ?_, ?_, ?_⟩
  · rw [hput]
    exact ⟨by simp [hcnt], .singleton _ pe⟩
  · rw [hput, ← hlast]
  · intro a ha
    obtain rfl := List.mem_singleton.mp ha
    exact Function.update_self _ _ _

/-- What a writer has done when it returns: all of `new` is in the list and the
repair notes are closed, or the list was too full and nothing has changed. -/
def WriteDone (m : OutMem) (xs new : List ℕ) (room : Prop) (r : Ret) (t : OutMem) : Prop :=
  (room → r = .ok ∧ Wrote m xs new new t ∧ t.fix.start = 0) ∧ (¬room → r = .error ∧ t = m)

/-- The last store of a writer closes its repair notes. -/
theorem Wrote.close {room : Prop} (hw : Wrote m xs new new t) (hn : Noted xs.length new t.fix)
    (hroom : room) :
    wp (do store fun t => { t with fix.start := t.fix.start - 1 }; pure Ret.ok)
      (WriteCrash m xs new) (WriteDone m xs new room) t := by
  have hcnt : t.pl.cnt = t.fix.cnt + t.fix.num := by
    rw [hw.isList.cnt_eq, length_putEvents, hn.cnt_eq, hn.num_eq]
  have hw' := hw.setFix { t.fix with start := t.fix.start - 1 }
  have hs : t.fix.start - 1 = 0 := by rw [hn.start_eq]
  have hc : WriteCrash m xs new t :=
    .whole new (List.prefix_refl _) hw (Or.inr (Or.inl hcnt))
  have hc' := WriteCrash.whole new (List.prefix_refl _) hw' (Or.inl hs)
  simp only [wp_bind, wp_store, wp_pure]
  exact ⟨hc, hc', hc', fun _ => ⟨rfl, hw', hs⟩, fun h => absurd hroom h⟩

/-- **`et_station_nwrite`.** -/
theorem wp_stationNwrite {nevents : ℕ} (h : IsList m.ev m.pl xs) (h0 : m.fix.start = 0)
    (hk : m.pl.lasthigh ≤ xs.length) (hnd : new.Nodup) (hdis : ∀ a ∈ new, a ∉ xs) :
    wp (stationNwrite nevents new) (WriteCrash m xs new)
      (WriteDone m xs new (new.length ≤ nevents - m.pl.cnt)) m := by
  have hw : Wrote m xs new [] m := .start h
  have hc : WriteCrash m xs new m := .whole [] List.nil_prefix hw (Or.inl h0)
  cases new with
  | nil =>
      simp only [stationNwrite, wp_pure]
      exact ⟨hc, fun _ => ⟨rfl, hw, h0⟩, fun h => absurd (Nat.zero_le _) h⟩
  | cons pe rest =>
      unfold stationNwrite
      rw [wp_bind, wp_get]
      refine ⟨hc, ?_⟩
      rw [wp_ite]
      split
      case isTrue hfull =>
        rw [wp_pure]
        refine ⟨hc, fun hroom => ?_, fun _ => ⟨rfl, rfl⟩⟩
        rw [List.length_cons] at hroom
        omega
      case isFalse hroom =>
        replace hroom : (pe :: rest).length ≤ nevents - m.pl.cnt := not_lt.mp hroom
        have hnote := @wp_noteWrite m xs (pe :: rest) h h0
        rw [List.length_cons] at hnote
        rw [wp_bind]
        refine wp_mono hnote (fun _ h => h) ?_
        rintro - t ht ⟨hev, hwt, hnt, hpl⟩
        simp only [wp_ite]
        split
        case isTrue hz =>
          obtain rfl : xs = [] := hw.cnt_eq_zero_iff.mp hz
          have hk0 : m.pl.lasthigh = 0 := Nat.le_zero.mp hk
          have hpre : [pe] <+: pe :: rest := ⟨rest, rfl⟩
          have hc₁ := fun l le => hwt.announce hnt hpre hk0 (Or.inl rfl) l le
          have hc₂ := fun l le => hwt.announce hnt hpre hk0 (Or.inr rfl) l le
          have counted := @Wrote.first m t _ pe hwt hk0
          have hne : (putEvents m.ev.isHigh (m.pl.lasthigh, []) [pe]).2 ≠ [] := by
            rw [hk0, putEvents_empty]
            exact List.cons_ne_nil pe []
          have hc₃ := counted.crash hnt hpre hne
          have hloop := wp_nwriteLoop (show pe :: rest = [pe] ++ rest from rfl) hnd hdis hk
            counted hnt hne
          rw [hk0, putEvents_empty] at hloop
          simp only [wp_bind, wp_store, wp_when]
          refine ⟨ht, hc₁ _ _, hc₁ _ _, hc₁ _ _, hc₁ _ _, hc₂ _ _, ?_⟩
          by_cases hh : m.ev.isHigh pe = true
          · simp only [hh, if_true] at hloop hc₃ ⊢
            refine ⟨hc₂ _ _, hc₂ _ _, hc₂ _ _, hc₃, wp_mono hloop (fun _ h => h) ?_⟩
            rintro _ u - ⟨hwu, hnu⟩
            simpa only [wp_bind, wp_store, wp_pure] using hwu.close hnu hroom
          · simp only [hh, if_false, Bool.false_eq_true] at hloop hc₃ ⊢
            have hnull : nodePtr [pe] t.pl.lasthigh = none := by
              rw [show t.pl.lasthigh = 0 from hwt.lasthigh_eq.trans hk0]
              rfl
            rw [hnull] at hloop
            refine ⟨hc₂ _ _, hc₂ _ _, hc₃, wp_mono hloop (fun _ h => h) ?_⟩
            rintro _ u - ⟨hwu, hnu⟩
            simpa only [wp_bind, wp_store, wp_pure] using hwu.close hnu hroom
        case isFalse hz =>
          have hne : xs ≠ [] := fun hne => hz (hw.cnt_eq_zero_iff.mpr hne)
          have hloop := wp_nwriteLoop (List.nil_append _).symm hnd hdis hk hwt hnt hne
          rw [hpl hne, putEvents_nil, ← findLasthigh_eq h hk, ← h.spans.last_eq hne] at hloop
          rw [wp_bind]
          exact wp_mono hloop (fun _ h => h) fun _ u _ hu => hu.1.close hu.2 hroom

/-- **`et_station_write`.** -/
theorem wp_stationWrite {nevents pe : ℕ} (h : IsList m.ev m.pl xs) (h0 : m.fix.start = 0)
    (hk : m.pl.lasthigh ≤ xs.length) (hpe : pe ∉ xs) :
    wp (stationWrite nevents pe) (WriteCrash m xs [pe])
      (WriteDone m xs [pe] (1 ≤ nevents - m.pl.cnt)) m := by
  have hw : Wrote m xs [pe] [] m := .start h
  have hc : WriteCrash m xs [pe] m := .whole [] List.nil_prefix hw (Or.inl h0)
  unfold stationWrite
  rw [wp_bind, wp_get]
  refine ⟨hc, ?_⟩
  rw [wp_ite]
  split
  case isTrue hfull =>
    rw [wp_pure]
    exact ⟨hc, fun hroom => by omega, fun _ => ⟨rfl, rfl⟩⟩
  case isFalse hfull =>
    have hroom : 1 ≤ nevents - m.pl.cnt := by omega
    have hnote := @wp_noteWrite m xs [pe] h h0
    rw [wp_bind]
    refine wp_mono hnote (fun _ h => h) ?_
    rintro - t ht ⟨hev, hwt, hnt, hpl⟩
    have hpre : [pe] <+: [pe] := List.prefix_refl _
    simp only [wp_ite]
    split
    case isTrue hz =>
      obtain rfl : xs = [] := hw.cnt_eq_zero_iff.mp hz
      have hk0 : m.pl.lasthigh = 0 := Nat.le_zero.mp hk
      have hc₁ := fun l le => hwt.announce hnt hpre hk0 (Or.inl rfl) l le
      have hc₂ := fun l le => hwt.announce hnt hpre hk0 (Or.inr rfl) l le
      have counted := @Wrote.first m t _ pe hwt hk0
      have hc₃ := counted.crash hnt hpre (by rw [hk0, putEvents_empty]; simp)
      have hclose := counted.close hnt hroom
      simp only [wp_bind, wp_store, wp_when, wp_pure] at hclose ⊢
      refine ⟨ht, hc₁ _ _, hc₁ _ _, hc₁ _ _, ?_⟩
      by_cases hh : m.ev.isHigh pe = true
      · simp only [hh, if_true] at hclose hc₃ ⊢
        exact ⟨hc₁ _ _, hc₁ _ _, hc₁ _ _, hc₂ _ _, hc₂ _ _, hc₃, hclose⟩
      · simp only [hh, if_false, Bool.false_eq_true] at hclose hc₃ ⊢
        exact ⟨hc₁ _ _, hc₁ _ _, hc₂ _ _, hc₂ _ _, hc₃, hclose⟩
    case isFalse hz =>
      have hne : xs ≠ [] := fun hne => hz (hw.cnt_eq_zero_iff.mpr hne)
      have hdis : ∀ a ∈ [pe], a ∉ xs := by simpa using hpe
      have hlink := wp_linkEvent_write hpre (List.nodup_singleton pe) hdis hk hwt hnt hne
      rw [hpl hne, putEvents_nil, ← findLasthigh_eq h hk, ← h.spans.last_eq hne] at hlink
      simp only [wp_bind, wp_store]
      refine wp_mono hlink (fun _ h => h) ?_
      rintro p u hu ⟨-, hfix, hcrash, hwu⟩
      have hnu : Noted xs.length [pe] u.fix := hfix ▸ hnt
      have hclose := hwu.close hnu hroom
      simp only [wp_bind, wp_store, wp_pure] at hclose ⊢
      exact ⟨hu, hcrash, hcrash, hclose.1, hclose⟩

end Writing

end EventTransfer
