import EventTransfer.InputQueue

/-!
# Merging batches into a list by priority

A list keeps its high-priority events before all others (`HighsFirst`).  Two routines merge a
batch into it, each walking the high-priority events the list begins with:

* `et_llist_write`, for conductors: the high-priority events of the batch go behind those of
  the list, the others to the end.  It trusts the batch to have its high-priority events
  first; with a first event of low priority the whole batch goes to the end.
* `et_restore` and its copy `et_restore_in`, for events left behind: the batch's events go
  before those of the same priority.

`wp_etLlistWrite` and `wp_restoreIn` say what the stores of the pointers do; `llistWrite` and
`mergeEvents` say what that means for the contents.
-/

namespace EventTransfer

open LinkedHeap StoreProgram StoreProgram.Prog StepRun

/-- All high-priority events come before all others. -/
def HighsFirst (high : ℕ → Bool) (xs : List ℕ) : Prop := ∀ e ∈ xs.dropWhile high, high e = false

theorem insertIdx_append {α : Type} (xs ys : List α) (a : α) :
    (xs ++ ys).insertIdx xs.length a = xs ++ a :: ys := by
  induction xs with
  | nil => rfl
  | cons x xs ih => exact congrArg (x :: ·) ih

/-! ## What a write does to the contents -/

/-! ### Lists that are written -/

section Write

variable {high : ℕ → Bool} {xs new : List ℕ}

@[simp]
theorem llistWrite_nil (high : ℕ → Bool) (xs : List ℕ) : llistWrite high xs [] = xs := rfl

theorem llistWrite_perm (high : ℕ → Bool) (xs new : List ℕ) :
    (llistWrite high xs new).Perm (xs ++ new) := by
  cases new with
  | nil => simp
  | cons e new =>
      rw [llistWrite]
      split
      · exact .refl _
      · have hx : xs.takeWhile high ++ xs.dropWhile high = xs := List.takeWhile_append_dropWhile
        have hn : (e :: new).takeWhile high ++ (e :: new).dropWhile high = e :: new :=
          List.takeWhile_append_dropWhile
        conv_rhs => rw [← hx, ← hn]
        rw [List.append_assoc, List.append_assoc, List.append_assoc]
        refine List.Perm.append_left _ ?_
        rw [← List.append_assoc, ← List.append_assoc]
        exact List.perm_append_comm.append_right _

theorem length_llistWrite (high : ℕ → Bool) (xs new : List ℕ) :
    (llistWrite high xs new).length = xs.length + new.length := by
  rw [(llistWrite_perm high xs new).length_eq, List.length_append]

theorem filter_takeWhile (high : ℕ → Bool) (xs : List ℕ) (b : Bool) :
    (xs.takeWhile high).filter (high · = b) = if b then xs.takeWhile high else [] := by
  cases b with
  | true =>
      refine List.filter_eq_self.mpr fun e he => ?_
      simpa using List.mem_takeWhile_imp he
  | false =>
      refine List.filter_eq_nil_iff.mpr fun e he => ?_
      simpa using List.mem_takeWhile_imp he

theorem HighsFirst.filter_dropWhile (h : HighsFirst high xs) (b : Bool) :
    (xs.dropWhile high).filter (high · = b) = if b then [] else xs.dropWhile high := by
  cases b with
  | true =>
      refine List.filter_eq_nil_iff.mpr fun e he => ?_
      simpa using h e he
  | false =>
      refine List.filter_eq_self.mpr fun e he => ?_
      simpa using h e he

/-- **The events of each priority stay in order**, and the new ones come behind the others. -/
theorem HighsFirst.filter_llistWrite (h : HighsFirst high xs) (new : List ℕ) (b : Bool) :
    (llistWrite high xs new).filter (high · = b) =
      xs.filter (high · = b) ++ new.filter (high · = b) := by
  cases new with
  | nil => simp
  | cons e new =>
      rw [llistWrite]
      split
      · exact List.filter_append ..
      · conv_rhs =>
          rw [← List.takeWhile_append_dropWhile (p := high) (l := xs),
            ← List.takeWhile_append_dropWhile (p := high) (l := e :: new)]
        simp only [List.filter_append, filter_takeWhile, h.filter_dropWhile]
        cases b <;> simp

theorem highsFirst_append (hx : ∀ e ∈ xs, high e = true) (hn : HighsFirst high new) :
    HighsFirst high (xs ++ new) := by
  unfold HighsFirst
  rw [List.dropWhile_append_of_pos hx]
  exact hn

theorem HighsFirst.append (hx : HighsFirst high xs) (hn : ∀ e ∈ new, high e = false) :
    HighsFirst high (xs ++ new) := by
  intro e he
  rw [List.dropWhile_append] at he
  split at he
  · exact hn e ((List.dropWhile_sublist high).subset he)
  · rcases List.mem_append.mp he with he | he
    · exact hx e he
    · exact hn e he

theorem HighsFirst.llistWrite (hx : HighsFirst high xs) (hn : HighsFirst high new) :
    HighsFirst high (llistWrite high xs new) := by
  cases new with
  | nil => exact hx
  | cons e new =>
      rw [EventTransfer.llistWrite]
      split
      case isTrue hcase =>
        rcases hcase with hlow | rfl
        · refine hx.append fun f hf => ?_
          have : (e :: new).dropWhile high = e :: new := by simp [hlow]
          refine hn f ?_
          rwa [this]
        · exact hn
      case isFalse =>
        rw [List.append_assoc, List.append_assoc]
        refine highsFirst_append (fun f hf => List.mem_takeWhile_imp hf) ?_
        refine highsFirst_append (fun f hf => List.mem_takeWhile_imp hf) ?_
        intro f hf
        rcases List.mem_append.mp ((List.dropWhile_sublist high).subset hf) with hf | hf
        · exact hx f hf
        · exact hn f hf

/-- What is left of a list after some of it is gone still has the high-priority events first. -/
theorem HighsFirst.sublist {ys : List ℕ} (h : HighsFirst high ys) (hsub : xs.Sublist ys) :
    HighsFirst high xs := by
  induction hsub with
  | slnil => exact h
  | cons a _ ih =>
      refine ih ?_
      unfold HighsFirst at h ⊢
      rw [List.dropWhile_cons] at h
      split at h
      · exact h
      · exact fun e he => h e (List.mem_cons_of_mem a ((List.dropWhile_sublist high).subset he))
  | cons_cons a hsub ih =>
      unfold HighsFirst at h ⊢
      rw [List.dropWhile_cons] at h ⊢
      split
      case isTrue ha =>
        rw [if_pos ha] at h
        exact ih h
      case isFalse ha =>
        rw [if_neg ha] at h
        intro e he
        exact h e ((hsub.cons_cons a).subset he)

theorem HighsFirst.takeWhile_eq (h : HighsFirst high xs) :
    xs.takeWhile high = xs.filter (high · = true) := by
  conv_rhs => rw [← List.takeWhile_append_dropWhile (p := high) (l := xs)]
  rw [List.filter_append, filter_takeWhile, h.filter_dropWhile, if_pos rfl, if_pos rfl,
    List.append_nil]

theorem HighsFirst.dropWhile_eq (h : HighsFirst high xs) :
    xs.dropWhile high = xs.filter (high · = false) := by
  conv_rhs => rw [← List.takeWhile_append_dropWhile (p := high) (l := xs)]
  rw [List.filter_append, filter_takeWhile, h.filter_dropWhile, if_neg Bool.false_ne_true,
    if_neg Bool.false_ne_true, List.nil_append]

theorem HighsFirst.filter_append_filter (h : HighsFirst high xs) :
    xs.filter (high · = true) ++ xs.filter (high · = false) = xs := by
  rw [← h.takeWhile_eq, ← h.dropWhile_eq, List.takeWhile_append_dropWhile]

/-- **A write by priority**: the old and the new events of high priority, then the old and the
new ones of low priority. -/
theorem HighsFirst.llistWrite_eq (hx : HighsFirst high xs) (hn : HighsFirst high new) :
    EventTransfer.llistWrite high xs new =
      xs.filter (high · = true) ++ new.filter (high · = true) ++
        xs.filter (high · = false) ++ new.filter (high · = false) := by
  have hall := (hx.llistWrite hn).filter_append_filter
  rw [hx.filter_llistWrite, hx.filter_llistWrite] at hall
  rw [← hall]
  simp only [List.append_assoc]

/-- **A merge by priority**: the new events go before the old ones of the same priority. -/
theorem HighsFirst.mergeEvents_eq (hx : HighsFirst high xs) (hn : HighsFirst high new) :
    mergeEvents high xs new = if xs = [] then new else
      new.filter (high · = true) ++ xs.filter (high · = true) ++
        new.filter (high · = false) ++ xs.filter (high · = false) := by
  unfold mergeEvents
  rw [hx.takeWhile_eq, hn.takeWhile_eq, hx.dropWhile_eq, hn.dropWhile_eq]

end Write

/-! ## `et_llist_write` -/

variable {F : Type}

/-- The write of a batch that begins with an event of high priority into a list that is not
empty, given the last high-priority event of the list, the event behind it, and whether the
list has events of high priority only. -/
def writeHigh (pelasthigh pevent : Option ℕ) (onlyHigh : Bool) (e : ℕ) (pe : List ℕ) :
    Prog (ListMem F) PUnit := do
  if pelasthigh ≠ none then do
    store fun t => { t with ev := t.ev.setNext (some e) (pelasthigh.bind t.ev.next) }
    store fun t => { t with ev := t.ev.setNext pelasthigh (some e) }
  else do
    store fun t => { t with ev := t.ev.setNext (some e) t.pl.firstevent }
    store fun t => { t with pl.firstevent := some e }
  let r ← restoreHighs pevent e pe
  when onlyHigh (store fun t => { t with pl.lastevent := some r.1 })
  match r.2 with
  | [] => pure ⟨⟩
  | low :: rest => do
      stringEvents (low :: rest)
      store fun t => { t with ev := t.ev.setNext t.pl.lastevent (some low) }
      store fun t => { t with pl.lastevent := (low :: rest).getLast? }

/-- `et_llist_write`; `pe` is the array of events, and the value is the number of those
written.  It is never called with no events or with no room. -/
def etLlistWrite (nevents : ℕ) (pe : List ℕ) : Prog (ListMem F) ℕ := do
  let m ← get
  match pe.take (nevents - m.pl.cnt) with
  | [] => pure 0
  | e :: rest => do
      if m.ev.isHigh e = false ∨ m.pl.cnt = 0 then do
        if m.pl.cnt = 0 then
          store fun t => { t with pl.firstevent := some e }
        else
          store fun t => { t with ev := t.ev.setNext t.pl.lastevent (some e) }
        stringEvents (e :: rest)
        store fun t => { t with pl.lastevent := (e :: rest).getLast? }
      else
        let r := findLows m.ev m.pl.cnt none m.pl.firstevent
        writeHigh r.1 r.2.1 (r.2.2 = m.pl.cnt) e rest
      store fun t => { t with pl.eventsIn := t.pl.eventsIn + (rest.length + 1) }
      store fun t => { t with pl.cnt := t.pl.cnt + (rest.length + 1) }
      pure (rest.length + 1)

section LlistWrite

variable {m : ListMem F} {xs new pe : List ℕ} {e : ℕ}

/-- The event that `findLows` stops at is the one the last high-priority event links to. -/
theorem findLows_next {ev : Events} {h p : Option ℕ} (hl : Linked ev.next xs)
    (hp : xs ≠ [] → p = xs.head?) :
    (findLows ev xs.length h p).2.1 = (xs.takeWhile ev.isHigh).getLast?.elim p ev.next := by
  induction xs generalizing h p with
  | nil => rfl
  | cons e xs ih =>
      rw [hp (List.cons_ne_nil e xs), List.head?_cons, List.length_cons]
      unfold findLows
      by_cases he : ev.isHigh e
      · have hnext : xs ≠ [] → ev.next e = xs.head? := by
          intro hne
          obtain ⟨b, ys, rfl⟩ := List.exists_cons_of_ne_nil hne
          exact ((linked_cons_cons _ _ _ _).mp hl).1
        rw [if_pos he, List.takeWhile_cons_of_pos he, List.getLast?_cons]
        dsimp only
        rw [ih (List.IsChain.tail hl) hnext]
        cases (xs.takeWhile ev.isHigh).getLast? <;> rfl
      · rw [if_neg he, List.takeWhile_cons_of_neg he]
        rfl

/-- **The write of a batch** `e :: pe` that begins with an event of high priority, behind the
high-priority events `hs`. -/
theorem wp_writeHigh {hs ls : List ℕ} {pevent : Option ℕ} {Q : PUnit → ListMem F → Prop}
    (hxs : Spans m.ev.next m.pl.firstevent m.pl.lastevent (hs ++ ls)) (hne : hs ++ ls ≠ [])
    (hpevent : pevent = hs.getLast?.elim m.pl.firstevent m.ev.next)
    (hnd : (hs ++ (e :: pe.takeWhile m.ev.isHigh) ++ ls ++ pe.dropWhile m.ev.isHigh).Nodup)
    (hQ : ∀ t, Merged m (hs ++ (e :: pe.takeWhile m.ev.isHigh) ++ ls ++
      pe.dropWhile m.ev.isHigh) t → Q ⟨⟩ t) :
    wp (writeHigh hs.getLast? pevent (decide (ls = [])) e pe) (fun _ => True) Q m := by
  have hsplit : pe.takeWhile m.ev.isHigh ++ pe.dropWhile m.ev.isHigh = pe :=
    List.takeWhile_append_dropWhile
  obtain ⟨hlh, hll, hjoin⟩ := linked_append.mp hxs.linked
  have hndpe : (hs ++ e :: pe).Nodup := by
    rw [← hsplit]
    refine hnd.sublist ?_
    rw [List.append_assoc, List.append_assoc, List.cons_append]
    refine List.Sublist.append_left (List.Sublist.cons_cons e ?_) hs
    exact List.Sublist.append_left (List.sublist_append_right ls _) _
  have hehs : e ∉ hs := fun hm => (List.nodup_append.mp hndpe).2.2 e hm e (by simp) rfl
  have hlink : ls ≠ [] → pevent = ls.head? := by
    intro hls
    rw [hpevent]
    cases hlast : hs.getLast? with
    | none =>
        obtain rfl := List.getLast?_eq_none_iff.mp hlast
        exact hxs.first_eq hne
    | some a =>
        obtain ⟨b, ls, rfl⟩ := List.exists_cons_of_ne_nil hls
        exact hjoin a hlast b rfl
  generalize hnh : e :: pe.takeWhile m.ev.isHigh = nh at hnd hQ
  have hmem : e ∈ nh := hnh ▸ List.mem_cons_self
  generalize hnl : pe.dropWhile m.ev.isHigh = nl at hnd hQ
  have hd := List.nodup_append.mp hnd
  have hd' := List.nodup_append.mp hd.1
  -- the rest of the batch, however its first event was put in
  have rest : ∀ next₀ first₀, Linked next₀ (hs ++ [e]) → next₀ e = pevent →
      (∀ a, a ∉ hs ++ [e] → next₀ a = m.ev.next a) → first₀ = (hs ++ [e]).head? →
      wp (do
          let r ← restoreHighs pevent e pe
          when (decide (ls = [])) (store fun t => { t with pl.lastevent := some r.1 })
          match r.2 with
          | [] => pure ⟨⟩
          | low :: rest => do
              stringEvents (low :: rest)
              store fun t => { t with ev := t.ev.setNext t.pl.lastevent (some low) }
              store fun t => { t with pl.lastevent := (low :: rest).getLast? })
        (fun _ => True) Q ⟨{ m.ev with next := next₀ }, { m.pl with firstevent := first₀ }, m.fix⟩ := by
    intro next₀ first₀ hl₀ hnext₀ hframe₀ hfirst₀
    rw [wp_bind]
    refine wp_restoreHighs (u := hs) hl₀ hnext₀ hndpe ?_
    dsimp only
    have hhigh : Events.isHigh { m.ev with next := next₀ } = m.ev.isHigh := rfl
    rw [hhigh, hnh, hnl]
    intro next₁ last' hl₁ hget hlast' hframe₁
    have hframe : ∀ a, a ∉ hs ++ nh → next₁ a = m.ev.next a := by
      intro a ha
      rw [hframe₁ a fun hm => ha (List.mem_append_right _ hm)]
      refine hframe₀ a fun hm => ha ?_
      rcases List.mem_append.mp hm with hm | hm
      · exact List.mem_append_left _ hm
      · rw [List.mem_singleton.mp hm]
        exact List.mem_append_right _ hmem
    have hll₁ : Linked next₁ ls :=
      hll.congr fun a ha => hframe a fun hm => hd'.2.2 a hm a ha rfl
    have hget' : (hs ++ nh).getLast? = some last' := by
      rw [List.getLast?_append_of_ne_nil _ (List.ne_nil_of_mem hmem), hget]
    have hstart : first₀ = (hs ++ nh ++ ls).head? := by
      rw [hfirst₀, ← hnh]
      cases hs <;> simp
    have hys : hs ++ nh ++ ls ≠ [] :=
      List.ne_nil_of_mem (List.mem_append_left _ (List.mem_append_right _ hmem))
    -- the events of low priority, at the end
    have tail : ∀ last₁, Spans next₁ first₀ last₁ (hs ++ nh ++ ls) →
        wp (match nl with
          | [] => pure ⟨⟩
          | low :: rest => do
              stringEvents (low :: rest)
              store fun t => { t with ev := t.ev.setNext t.pl.lastevent (some low) }
              store fun t => { t with pl.lastevent := (low :: rest).getLast? })
          (fun _ => True) Q ⟨{ m.ev with next := next₁ },
            { m.pl with firstevent := first₀, lastevent := last₁ }, m.fix⟩ := by
      intro last₁ hspans
      cases nl with
      | nil =>
          rw [wp_pure]
          rw [List.append_nil] at hQ
          refine ⟨trivial, hQ _ ⟨hspans, fun a ha => hframe a fun hm => ha ?_, rfl⟩⟩
          exact List.mem_append_left _ hm
      | cons low lows =>
          obtain ⟨b, hb⟩ := exists_getLast? hys
          have hlast : last₁ = some b := (hspans.last_eq hys).trans hb
          have hbmem : b ∈ hs ++ nh ++ ls := List.mem_of_getLast? hb
          have hdis : ∀ a ∈ hs ++ nh ++ ls, a ∉ low :: lows :=
            fun a ha hn => hd.2.2 a ha a hn rfl
          have hlows : Linked (linkUp (low :: lows) next₁) (low :: lows) := linked_linkUp hd.2.1
          simp only [wp_bind]
          refine wp_stringEvents ?_
          simp only [wp_store, true_and]
          refine hQ _ ⟨hspans.append hys ?_ (List.cons_ne_nil low lows) hnd ?_ ?_, ?_, ?_⟩
          · simpa [ListMem.setLinks, hlast] using
              hlows.update (a := b) (fun hm => hdis b hbmem (List.mem_of_mem_dropLast hm)) (some low)
          · intro a ha
            have hab : a ≠ b := ne_of_mem_of_not_mem ha (notMem_dropLast_of_nodup hd.1 hb)
            have hal := hdis a (List.mem_of_mem_dropLast ha)
            simp [ListMem.setLinks, hlast, hab,
              linkUp_of_notMem fun hm => hal (List.mem_of_mem_dropLast hm)]
          · intro a ha
            obtain rfl : b = a := Option.some.inj (hb.symm.trans ha)
            simp [ListMem.setLinks, hlast]
          · intro a ha
            rw [List.mem_append, not_or] at ha
            have hab : a ≠ b := fun h => ha.1 (h ▸ hbmem)
            have hal : linkUp (low :: lows) next₁ a = next₁ a :=
              linkUp_of_notMem fun hm => ha.2 (List.mem_of_mem_dropLast hm)
            simp [ListMem.setLinks, hlast, hab, hal,
              hframe a fun hm => ha.1 (List.mem_append_left _ hm)]
          · simp only [ListMem.setLinks, hlast]
            rfl
    rw [wp_bind, wp_when]
    by_cases hls : ls = []
    · subst hls
      rw [List.append_nil] at hd hys hstart tail
      simp only [decide_true, if_true, wp_store, true_and]
      exact tail (some last') ⟨hl₁, hd.1, fun _ => hstart, fun _ => hget'.symm⟩
    · simp only [hls, decide_false, Bool.false_eq_true, if_false, true_and]
      refine tail m.pl.lastevent ⟨?_, hd.1, fun _ => hstart, fun _ => ?_⟩
      · exact linked_append_of_next hl₁ hll₁ hget' (hlast'.trans (hlink hls))
      · rw [List.getLast?_append_of_ne_nil _ hls, hxs.last_eq hne,
          List.getLast?_append_of_ne_nil _ hls]
  unfold writeHigh
  simp only [wp_ite]
  cases hlast : hs.getLast? with
  | none =>
      obtain rfl := List.getLast?_eq_none_iff.mp hlast
      simp only [ne_eq, not_true_eq_false, if_false, wp_bind, wp_store, true_and]
      have hfirst : pevent = m.pl.firstevent := hpevent
      have hrest := rest (Function.update m.ev.next e m.pl.firstevent) (some e)
        (linked_singleton _ e) (by rw [Function.update_self, hfirst]) (fun a ha => ?_) rfl
      · simp only [wp_bind] at hrest
        exact hrest
      · exact Function.update_of_ne (fun h => ha (by simp [h])) _ _
  | some a =>
      have ha : a ∈ hs := List.mem_of_getLast? hlast
      have hae : e ≠ a := fun h => hehs (h ▸ ha)
      have hnext : pevent = m.ev.next a := by rw [hpevent, hlast, Option.elim_some]
      simp only [ne_eq, reduceCtorEq, not_false_eq_true, if_true, wp_bind, wp_store, true_and]
      have hnd₁ : (hs ++ [e]).Nodup := hndpe.sublist
        (List.Sublist.append_left (List.Sublist.cons_cons e (List.nil_sublist pe)) hs)
      have hl₀ : Linked (Function.update (Function.update m.ev.next e (m.ev.next a)) a (some e))
          (hs ++ [e]) :=
        (hlh.update (fun hm => hehs (List.mem_of_mem_dropLast hm)) _).join (linked_singleton _ e)
          hnd₁ hlast rfl
      have hrest := rest _ m.pl.firstevent hl₀ (by
        rw [Function.update_of_ne hae, Function.update_self, hnext]) (fun b hb => ?_) ?_
      · simp only [wp_bind] at hrest
        exact hrest
      · rw [List.mem_append, List.mem_singleton, not_or] at hb
        have hba : b ≠ a := fun h => hb.1 (h ▸ ha)
        rw [Function.update_of_ne hba, Function.update_of_ne hb.2]
      · have hhs := List.ne_nil_of_mem ha
        rw [hxs.first_eq hne, List.head?_append_of_ne_nil _ hhs, List.head?_append_of_ne_nil _ hhs]

/-- **A complete write** by a conductor: the list has gone from `xs` to `llistWrite`, and the
events that came in are counted. -/
structure LlistWritten (m : ListMem F) (xs new : List ℕ) (t : ListMem F) : Prop where
  isList : IsList t.ev t.pl (llistWrite m.ev.isHigh xs new)
  hdr : t.ev.hdr = m.ev.hdr
  next : ∀ a, a ∉ xs ++ new → t.ev.next a = m.ev.next a
  owner : t.ev.owner = m.ev.owner
  rest : t.fix = m.fix ∧ t.pl.lasthigh = m.pl.lasthigh ∧ t.pl.eventsTry = m.pl.eventsTry ∧
    t.pl.eventsIn = m.pl.eventsIn + new.length ∧ t.pl.eventsOut = m.pl.eventsOut

/-- **`et_llist_write`** of a batch that has room. -/
theorem wp_etLlistWrite {nevents : ℕ} (h : IsList m.ev m.pl xs) (hne : new ≠ []) (hnd : new.Nodup)
    (hdis : ∀ a ∈ new, a ∉ xs) (hroom : xs.length + new.length ≤ nevents) :
    wp (etLlistWrite nevents new) (fun _ => True)
      (fun r t => r = new.length ∧ LlistWritten m xs new t) m := by
  have hcnt := h.cnt_eq
  obtain ⟨e, pe, rfl⟩ := List.exists_cons_of_ne_nil hne
  have htake : (e :: pe).take (nevents - m.pl.cnt) = e :: pe :=
    List.take_of_length_le (by omega)
  have hndall : (xs ++ e :: pe).Nodup :=
    List.nodup_append.mpr ⟨h.spans.nodup, hnd, fun a ha b hb hab => hdis b hb (hab ▸ ha)⟩
  -- whatever way the events were linked, the rest is the same
  have finish : ∀ t : ListMem F, Merged m (llistWrite m.ev.isHigh xs (e :: pe)) t →
      LlistWritten m xs (e :: pe) { t with
        pl := { t.pl with eventsIn := t.pl.eventsIn + (pe.length + 1),
                          cnt := t.pl.cnt + (pe.length + 1) } } := by
    rintro t ⟨hspans, hframe, hrest⟩
    rw [hrest]
    refine ⟨⟨?_, hspans⟩, rfl, fun a ha => ?_, rfl, rfl, rfl, rfl, rfl, rfl⟩
    · rw [length_llistWrite, ← hcnt]
      rfl
    · exact hframe a fun hm => ha ((llistWrite_perm _ _ _).mem_iff.mp hm)
  unfold etLlistWrite
  simp only [wp_bind, wp_get, htake, wp_ite, wp_store, wp_pure, true_and]
  rcases eq_or_ne xs [] with rfl | hxs
  · have hcnt0 : m.pl.cnt = 0 := hcnt.trans List.length_nil
    rw [if_pos (.inr hcnt0), if_pos hcnt0]
    refine wp_stringEvents ?_
    have hwrite : llistWrite m.ev.isHigh [] (e :: pe) = e :: pe := if_pos (.inr rfl)
    refine ⟨rfl, finish ⟨{ m.ev with next := linkUp (e :: pe) m.ev.next },
      { m.pl with firstevent := some e, lastevent := (e :: pe).getLast? }, m.fix⟩
      ⟨?_, fun a ha => ?_, rfl⟩⟩
    · rw [hwrite]
      exact ⟨linked_linkUp hnd, hnd, fun _ => rfl, fun _ => rfl⟩
    · rw [hwrite] at ha
      exact linkUp_of_notMem fun hm => ha (List.mem_of_mem_dropLast hm)
  have hcnt0 : m.pl.cnt ≠ 0 := by
    rw [hcnt]
    exact fun hz => hxs (List.length_eq_zero_iff.mp hz)
  by_cases he : m.ev.isHigh e = false
  · obtain ⟨a, ha⟩ := exists_getLast? hxs
    have hamem : a ∈ xs := List.mem_of_getLast? ha
    have hlast : m.pl.lastevent = some a := (h.spans.last_eq hxs).trans ha
    rw [if_pos (.inl he), if_neg hcnt0, hlast]
    refine wp_stringEvents ?_
    have hwrite : llistWrite m.ev.isHigh xs (e :: pe) = xs ++ e :: pe := if_pos (.inl he)
    have hnew : ∀ b ∈ xs, b ∉ e :: pe := fun b hb hn => hdis b hn hb
    refine ⟨rfl, finish
      ⟨{ m.ev with next := linkUp (e :: pe) (Function.update m.ev.next a (some e)) },
        { m.pl with lastevent := (e :: pe).getLast? }, m.fix⟩ ⟨?_, fun b hb => ?_, rfl⟩⟩
    · rw [hwrite]
      refine h.spans.append hxs (linked_linkUp hnd) hne hndall (fun b hb => ?_) fun b hb => ?_
      · have hba : b ≠ a := ne_of_mem_of_not_mem hb (notMem_dropLast_of_nodup h.spans.nodup ha)
        have hbn := hnew b (List.mem_of_mem_dropLast hb)
        rw [linkUp_of_notMem fun hm => hbn (List.mem_of_mem_dropLast hm)]
        exact Function.update_of_ne hba _ _
      · obtain rfl : a = b := Option.some.inj (ha.symm.trans hb)
        rw [linkUp_of_notMem fun hm => hnew a hamem (List.mem_of_mem_dropLast hm)]
        exact Function.update_self _ _ _
    · rw [hwrite, List.mem_append, not_or] at hb
      have hba : b ≠ a := fun hab => hb.1 (hab ▸ hamem)
      dsimp only
      rw [linkUp_of_notMem fun hm => hb.2 (List.mem_of_mem_dropLast hm)]
      exact Function.update_of_ne hba _ _
  · have hsplit : xs.takeWhile m.ev.isHigh ++ xs.dropWhile m.ev.isHigh = xs :=
      List.takeWhile_append_dropWhile
    obtain ⟨hfind₁, -, hfind₃⟩ := findLows_eq (h := none) h.spans.linked h.spans.first_eq
    have hfind₂ := findLows_next (h := none) h.spans.linked h.spans.first_eq
    rw [← hcnt] at hfind₁ hfind₂ hfind₃
    rw [Option.or_none] at hfind₁
    have honly : decide ((findLows m.ev m.pl.cnt none m.pl.firstevent).2.2 = m.pl.cnt) =
        decide (xs.dropWhile m.ev.isHigh = []) := by
      have hlen := congrArg List.length hsplit
      rw [List.length_append, ← hcnt] at hlen
      rw [hfind₃]
      refine decide_eq_decide.mpr ?_
      rw [← List.length_eq_zero_iff]
      omega
    have hwrite : llistWrite m.ev.isHigh xs (e :: pe) =
        xs.takeWhile m.ev.isHigh ++ (e :: pe.takeWhile m.ev.isHigh) ++ xs.dropWhile m.ev.isHigh ++
          pe.dropWhile m.ev.isHigh := by
      have hhigh : m.ev.isHigh e = true := by simpa using he
      rw [llistWrite, if_neg (by simp [he, hxs]), List.takeWhile_cons_of_pos hhigh,
        List.dropWhile_cons_of_pos hhigh]
    have hndzs := ((llistWrite_perm m.ev.isHigh xs (e :: pe)).nodup_iff).mpr hndall
    rw [if_neg (by simp [he, hcnt0]), hfind₁, hfind₂, honly]
    rw [hwrite] at hndzs finish
    have hspans : Spans m.ev.next m.pl.firstevent m.pl.lastevent
        (xs.takeWhile m.ev.isHigh ++ xs.dropWhile m.ev.isHigh) := by
      rw [hsplit]
      exact h.spans
    exact wp_writeHigh hspans (by rwa [hsplit]) rfl hndzs fun t ht => ⟨rfl, finish t ht⟩

end LlistWrite

/-! ## Input lists over time -/

/-- The contents of a list: the events from `firstevent` to `lastevent`. -/
def ListMem.events (m : ListMem F) : List ℕ :=
  if m.pl.cnt = 0 then [] else (walkTo m.ev.next m.pl.lastevent m.pl.cnt m.pl.firstevent).getD []

theorem IsList.events_eq {m : ListMem F} {xs : List ℕ} (h : IsList m.ev m.pl xs) :
    m.events = xs := by
  unfold ListMem.events
  rcases eq_or_ne xs [] with rfl | hne
  · exact if_pos h.cnt_eq
  · have hcnt : m.pl.cnt ≠ 0 := by
      rw [h.cnt_eq]
      exact fun hz => hne (List.length_eq_zero_iff.mp hz)
    rw [if_neg hcnt, h.spans.walkTo_eq hne h.cnt_eq.ge, Option.getD_some]

/-- **What happens to an input list**: a conductor writes a batch, a reader takes events from
the front, and other processes change events that are not in the list. -/
inductive InputAct
  | write (pe : List ℕ)
  | read (att : ℤ)
  | nread (att : ℤ) (num : ℕ)
  | elsewhere (ev : Events)

/-- One step. -/
def InputAct.run (nevents : ℕ) (m : InMem) : InputAct → InMem
  | write pe => final (etLlistWrite nevents pe) m
  | read att => final (stationRead att) m
  | nread att num => final (stationNread att num) m
  | elsewhere ev => { m with ev := ev }

/-- **What the callers see to**: a batch has its high-priority events first, no event twice
and none that is in the list, and there is room for it; a reader waits until there are events
(`pl->cnt != 0`). -/
def InputAct.Proper (nevents : ℕ) (m : InMem) : InputAct → Prop
  | write pe => pe ≠ [] ∧ pe.Nodup ∧ (∀ e ∈ pe, e ∉ m.events) ∧ HighsFirst m.ev.isHigh pe ∧
      m.pl.cnt + pe.length ≤ nevents
  | read _ | nread _ _ => m.pl.cnt ≠ 0
  | elsewhere ev => ∀ e ∈ m.events, ev.next e = m.ev.next e ∧ ev.hdr e = m.ev.hdr e

/-- **An input list**, from its initialisation on. -/
def inputList (nevents : ℕ) : Machine InMem InputAct where
  start m := m.pl = EtList.init
  step m a t := t = a.run nevents m

section Runs

variable {nevents : ℕ} {m : InMem} {a : InputAct}

/-- **A list in priority order.** -/
def ListMem.InOrder (m : ListMem F) : Prop :=
  IsList m.ev m.pl m.events ∧ HighsFirst m.ev.isHigh m.events

theorem IsList.inOrder {t : ListMem F} {xs : List ℕ} (h : IsList t.ev t.pl xs)
    (hx : HighsFirst t.ev.isHigh xs) : t.InOrder := by
  unfold ListMem.InOrder
  rw [h.events_eq]
  exact ⟨h, hx⟩

theorem isHigh_congr {ev ev' : Events} (h : ev'.hdr = ev.hdr) : ev'.isHigh = ev.isHigh := by
  funext e
  simp only [Events.isHigh, h]

theorem HighsFirst.congr {high high' : ℕ → Bool} {xs : List ℕ} (h : HighsFirst high xs)
    (agree : ∀ e ∈ xs, high' e = high e) : HighsFirst high' xs := by
  have hdrop : xs.dropWhile high' = xs.dropWhile high := by
    induction xs with
    | nil => rfl
    | cons e xs ih =>
        rw [List.dropWhile_cons, List.dropWhile_cons, agree e List.mem_cons_self]
        split
        case isTrue he =>
          refine ih ?_ fun f hf => agree f (List.mem_cons_of_mem e hf)
          unfold HighsFirst at h
          rwa [List.dropWhile_cons_of_pos he] at h
        case isFalse => rfl
  intro e he
  rw [hdrop] at he
  rw [agree e ((List.dropWhile_sublist high).subset he)]
  exact h e he

/-- **One step** keeps the order. -/
theorem ListMem.InOrder.step (h : m.InOrder) (ok : a.Proper nevents m) :
    (a.run nevents m).InOrder := by
  obtain ⟨hlist, hhigh⟩ := h
  cases a with
  | write pe =>
      obtain ⟨hne, hnd, hdis, hpe, hroom⟩ := ok
      rw [hlist.cnt_eq] at hroom
      obtain ⟨-, ht⟩ := (wp_etLlistWrite hlist hne hnd hdis hroom).2
      refine ht.isList.inOrder ?_
      rw [isHigh_congr ht.hdr]
      exact hhigh.llistWrite hpe
  | read att =>
      have hne : m.events ≠ [] := by
        intro hnil
        exact ok (by rw [hlist.cnt_eq, hnil, List.length_nil])
      obtain ⟨-, ht, hev⟩ := (wp_stationRead_done att hlist hne).2
      refine ht.inOrder ?_
      rw [hev, isHigh_congr (Events.setOwners_hdr _ _ _)]
      exact hhigh.sublist (List.drop_sublist 1 _)
  | nread att num =>
      obtain ⟨-, ht, hev⟩ := (wp_stationNread_done att num hlist).2
      refine ht.inOrder ?_
      rw [hev, isHigh_congr (Events.setOwners_hdr _ _ _)]
      exact hhigh.sublist (List.drop_sublist num _)
  | elsewhere ev =>
      have ht : IsList ev m.pl m.events := hlist.congr fun e he => (ok e he).1
      refine IsList.inOrder (t := { m with ev := ev }) ht (hhigh.congr fun e he => ?_)
      simp only [Events.isHigh, (ok e he).2]

/-- **A run** keeps the order. -/
theorem inputList_inOrder (h : (inputList nevents).Reach (fun m a => a.Proper nevents m) m) :
    m.InOrder := by
  refine h.invariant (fun m hm => ?_) fun m a t hm ok hstep => ?_
  · have hnil : IsList m.ev m.pl [] := by
      rw [show m.pl = EtList.init from hm]
      exact .init _
    exact hnil.inOrder fun e he => absurd he List.not_mem_nil
  · rw [show t = a.run nevents m from hstep]
    exact hm.step ok

end Runs

/-- **A conductor's write merges by priority**: the old events of high priority, the new ones,
the old others and the new others, each in their order.  An input list that only conductors
write to and readers read from the front is in priority order at any time. -/
theorem listWrites_keep_priority (nevents : ℕ) :
    (∀ (F : Type) (m : ListMem F) (xs new : List ℕ), IsList m.ev m.pl xs →
      HighsFirst m.ev.isHigh xs → new ≠ [] → new.Nodup → (∀ e ∈ new, e ∉ xs) →
      HighsFirst m.ev.isHigh new → xs.length + new.length ≤ nevents →
        value (etLlistWrite nevents new) m = new.length ∧
          IsList (final (etLlistWrite nevents new) m).ev (final (etLlistWrite nevents new) m).pl
            (xs.filter (m.ev.isHigh · = true) ++ new.filter (m.ev.isHigh · = true) ++
              xs.filter (m.ev.isHigh · = false) ++ new.filter (m.ev.isHigh · = false))) ∧
    ∀ m, (inputList nevents).Reach (fun m a => a.Proper nevents m) m → m.InOrder := by
  refine ⟨fun F m xs new h hx hne hnd hdis hn hroom => ?_, fun m hm => inputList_inOrder hm⟩
  obtain ⟨hvalue, ht⟩ := (wp_etLlistWrite h hne hnd hdis hroom).2
  refine ⟨hvalue, ?_⟩
  rw [← hx.llistWrite_eq hn]
  exact ht.isList

/-- The events 0 and 1 in the list; 0 and 2 are of high priority. -/
def mergeExample : InMem where
  ev := ⟨fun e => if e = 0 then some 1 else none, fun _ => etSys,
    fun e => { EventHeader.init with priority := if e = 0 ∨ e = 2 then .high else .low }⟩
  pl := ⟨2, 0, 0, 0, 0, some 0, some 1⟩
  fix := FixIn.init

theorem mergeExample_isList : IsList mergeExample.ev mergeExample.pl [0, 1] := by
  refine ⟨rfl, ?_, by decide, fun _ => rfl, fun _ => rfl⟩
  rw [linked_cons_cons]
  exact ⟨rfl, linked_singleton _ _⟩

theorem listWrites_keep_priority_example : [2, 3].Nodup ∧
    IsList (final (etLlistWrite 4 [2, 3]) mergeExample).ev
      (final (etLlistWrite 4 [2, 3]) mergeExample).pl [0, 2, 1, 3] := by
  have hnd : [2, 3].Nodup := by decide
  exact ⟨hnd, ((listWrites_keep_priority 4).1 FixIn mergeExample [0, 1] [2, 3] mergeExample_isList
    (by unfold HighsFirst; decide) (by decide) hnd (by decide) (by unfold HighsFirst; decide)
    (by decide)).2⟩

/-! ## Restores -/

section Restore

variable {m : ListMem F} {nevents : ℕ}

/-- The events there is no room for are not looked at. -/
theorem restore_take (new : List ℕ) (h : m.pl.cnt < nevents) :
    restore nevents (new.take (nevents - m.pl.cnt)) m = restore nevents new m ∧
      restoreIn nevents (new.take (nevents - m.pl.cnt)) m = restoreIn nevents new m := by
  unfold restore restoreIn
  simp only [get_bind_apply, if_neg (Nat.not_le.mpr h), List.take_take, Nat.min_self, true_and]

theorem restore_full (new : List ℕ) (h : nevents ≤ m.pl.cnt) :
    restore nevents new m = (pure (.error, 0) : Prog (ListMem F) _) m ∧
      restoreIn nevents new m = (pure (.error, 0) : Prog (ListMem F) _) m := by
  unfold restore restoreIn
  simp only [get_bind_apply, if_pos h, true_and]

end Restore

/-- **A restore merges by priority**, as many events as there is room for: in a list that is not
empty the new events go before the old ones of the same priority, and into an empty one they go
as they are.  `et_restore_in` makes the same list as `et_restore`. -/
theorem restores_keep_priority (m : ListMem F) (xs new : List ℕ) (nevents : ℕ)
    (h : IsList m.ev m.pl xs) (hx : HighsFirst m.ev.isHigh xs) (hne : new ≠ []) (hnd : new.Nodup)
    (hdis : ∀ e ∈ new, e ∉ xs) (hn : HighsFirst m.ev.isHigh new) :
    let batch := new.take (min new.length (nevents - m.pl.cnt))
    let merged := if xs = [] then batch else
      batch.filter (m.ev.isHigh · = true) ++ xs.filter (m.ev.isHigh · = true) ++
        batch.filter (m.ev.isHigh · = false) ++ xs.filter (m.ev.isHigh · = false)
    let reported := (if m.pl.cnt < nevents then Ret.ok else .error, batch.length)
    let t := final (restore nevents new) m
    let u := final (restoreIn nevents new) m
    (value (restore nevents new) m = reported ∧ IsList t.ev t.pl merged ∧
        ∀ e ∈ batch, t.ev.owner e = etSys) ∧
      value (restoreIn nevents new) m = reported ∧ IsList u.ev u.pl merged := by
  have htake : new.take (min new.length (nevents - m.pl.cnt)) = new.take (nevents - m.pl.cnt) := by
    rw [Nat.min_comm, ← List.take_take, List.take_length]
  dsimp only
  rw [htake]
  rcases Nat.lt_or_ge m.pl.cnt nevents with hlt | hfull
  · obtain ⟨hrestore, hrestoreIn⟩ := restore_take new hlt
    generalize hbatch : new.take (nevents - m.pl.cnt) = batch at hrestore hrestoreIn ⊢
    have hsub : batch.Sublist new := hbatch ▸ List.take_sublist _ _
    have hroom : xs.length + batch.length ≤ nevents := by
      have := List.length_take_le (nevents - m.pl.cnt) new
      rw [hbatch] at this
      have := h.cnt_eq
      omega
    have hbne : batch ≠ [] := by
      rw [← hbatch, ne_eq, List.take_eq_nil_iff, not_or]
      exact ⟨by omega, hne⟩
    have hdis' : ∀ e ∈ batch, e ∉ xs := fun e he => hdis e (hsub.subset he)
    rw [if_pos hlt, ← hx.mergeEvents_eq (hn.sublist hsub)]
    obtain ⟨hvalue, ht⟩ := (wp_restore h hbne (hnd.sublist hsub) hdis' hroom).2
    obtain ⟨hvalue', hu⟩ := (wp_restoreIn h hbne (hnd.sublist hsub) hdis' hroom).2
    rw [final_congr hrestore] at ht
    rw [final_congr hrestoreIn] at hu
    refine ⟨⟨?_, ht.isList, fun e he => ?_⟩, ?_, hu.isList⟩
    · rw [← hvalue, value, value, hrestore]
    · rw [ht.owner, if_pos he]
    · rw [← hvalue', value, value, hrestoreIn]
  · obtain ⟨hrestore, hrestoreIn⟩ := restore_full new hfull
    have hnil : new.take (nevents - m.pl.cnt) = [] := by
      rw [Nat.sub_eq_zero_of_le hfull, List.take_zero]
    have hmerged : (if xs = [] then [] else
        [].filter (m.ev.isHigh · = true) ++ xs.filter (m.ev.isHigh · = true) ++
          [].filter (m.ev.isHigh · = false) ++ xs.filter (m.ev.isHigh · = false)) = xs := by
      rw [← hx.mergeEvents_eq (fun e he => absurd he List.not_mem_nil)]
      unfold mergeEvents
      split
      case isTrue hxs => exact hxs.symm
      case isFalse =>
        simp only [List.takeWhile_nil, List.dropWhile_nil, List.nil_append, List.append_nil,
          List.takeWhile_append_dropWhile]
    rw [hnil, hmerged, if_neg (Nat.not_lt.mpr hfull), final_congr hrestore, final_congr hrestoreIn,
      final_pure]
    refine ⟨⟨?_, h, fun e he => absurd he List.not_mem_nil⟩, ?_, h⟩
    · rw [value, hrestore]
      rfl
    · rw [value, hrestoreIn]
      rfl

theorem restores_keep_priority_example : [2, 3].Nodup ∧
    value (restore 4 [2, 3]) mergeExample = (.ok, 2) ∧
    IsList (final (restore 4 [2, 3]) mergeExample).ev (final (restore 4 [2, 3]) mergeExample).pl
      [2, 0, 3, 1] := by
  have hnd : [2, 3].Nodup := by decide
  obtain ⟨⟨hvalue, hlist, -⟩, -⟩ := restores_keep_priority mergeExample [0, 1] [2, 3] 4
    mergeExample_isList (by unfold HighsFirst; decide) (by decide) hnd (by decide)
    (by unfold HighsFirst; decide)
  exact ⟨hnd, hvalue, hlist⟩

end EventTransfer
