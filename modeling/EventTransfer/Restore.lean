import EventTransfer.OutputList

/-!
# Merging restored events into a list

`et_restore` puts the events a detached or dead process has left behind back into an input
or an output list.  It takes the batch to have its high-priority events first, and puts
these before all events of the list, the others after the high-priority events the list
begins with.  It keeps no notes for a repair, and it leaves the list's `lasthigh` as it is.

`et_restore_in` is a copy of it that leaves the owners of the events alone.

* `mergeEvents high xs new` — the contents of the list afterwards.
* `wp_restoreIn` and `wp_restore` — what a complete merge does.
-/

namespace EventTransfer

open LinkedHeap StoreProgram StoreProgram.Prog

variable {F : Type}

/-! ## The merge -/

/-- "Find last high & first low priority events already in list", within the given number
of events.  The value is these two and the number of high-priority events passed. -/
def findLows (ev : Events) : ℕ → Option ℕ → Option ℕ → Option ℕ × Option ℕ × ℕ
  | n + 1, plasthigh, some e =>
      if ev.isHigh e then
        let r := findLows ev n (some e) (ev.next e)
        (r.1, r.2.1, r.2.2 + 1)
      else (plasthigh, some e, 0)
  | _, plasthigh, pfirstlow => (plasthigh, pfirstlow, 0)

/-- "Change the owner to the system". -/
def ownEvents : List ℕ → Prog (ListMem F) PUnit
  | [] => pure ⟨⟩
  | e :: pe => do
      store fun t => { t with ev := t.ev.setOwner e etSys }
      ownEvents pe

/-- "String lows together": every event of the array is linked to the next one. -/
def stringEvents : List ℕ → Prog (ListMem F) PUnit
  | a :: b :: pe => do
      store fun t => { t with ev := t.ev.setNext (some a) (some b) }
      stringEvents (b :: pe)
  | _ => pure ⟨⟩

/-- "Add rest of high pri items", each between the one before it and `pfirst`.  The value
is the last of them and the events left. -/
def restoreHighs (pfirst : Option ℕ) : ℕ → List ℕ → Prog (ListMem F) (ℕ × List ℕ)
  | last, [] => pure (last, [])
  | last, e :: pe => do
      let m ← get
      if m.ev.isHigh e then do
        store fun t => { t with ev := t.ev.setNext (some last) (some e) }
        store fun t => { t with ev := t.ev.setNext (some e) pfirst }
        restoreHighs pfirst e pe
      else pure (last, e :: pe)

/-- The merge of a batch that begins with an event of low priority into a list that is not
empty. -/
def restoreLow (plasthigh pfirstlow : Option ℕ) (e : ℕ) (pe : List ℕ) : Prog (ListMem F) PUnit := do
  stringEvents (e :: pe)
  if pfirstlow = none then do
    store fun t => { t with ev := t.ev.setNext t.pl.lastevent (some e) }
    store fun t => { t with pl.lastevent := (e :: pe).getLast? }
  else do
    if plasthigh ≠ none then
      store fun t => { t with ev := t.ev.setNext plasthigh (some e) }
    else
      store fun t => { t with pl.firstevent := some e }
    store fun t => { t with ev := t.ev.setNext (e :: pe).getLast? pfirstlow }

/-- The merge of a batch that begins with an event of high priority into a list that is
not empty. -/
def restoreHigh (plasthigh pfirstlow : Option ℕ) (e : ℕ) (pe : List ℕ) :
    Prog (ListMem F) PUnit := do
  let m ← get
  store fun t => { t with ev := t.ev.setNext (some e) t.pl.firstevent }
  store fun t => { t with pl.firstevent := some e }
  let r ← restoreHighs m.pl.firstevent e pe
  match r.2 with
  | [] => pure ⟨⟩
  | low :: rest => do
      stringEvents (low :: rest)
      if pfirstlow = none then do
        store fun t => { t with ev := t.ev.setNext m.pl.lastevent (some low) }
        store fun t => { t with pl.lastevent := (low :: rest).getLast? }
      else do
        if plasthigh ≠ none then
          store fun t => { t with ev := t.ev.setNext plasthigh (some low) }
        else
          store fun t => { t with ev := t.ev.setNext (some r.1) (some low) }
        store fun t => { t with ev := t.ev.setNext (low :: rest).getLast? pfirstlow }

/-- `et_restore`, from the lock of the list to its unlock; `pe` is the array of events.  The
value is the return code and the number of events restored.  It is never called with no
events. -/
def restore (nevents : ℕ) (pe : List ℕ) : Prog (ListMem F) (Ret × ℕ) := do
  let m ← get
  if nevents ≤ m.pl.cnt then pure (.error, 0)
  else
    let r := findLows m.ev m.pl.cnt none m.pl.firstevent
    let pfirstlow := if m.pl.cnt = 0 ∨ r.2.2 = m.pl.cnt then none else r.2.1
    match pe.take (nevents - m.pl.cnt) with
    | [] => pure (.ok, 0)
    | e :: rest => do
        ownEvents (e :: rest)
        if m.pl.cnt = 0 then do
          stringEvents (e :: rest)
          store fun t => { t with pl.firstevent := some e }
          store fun t => { t with pl.lastevent := (e :: rest).getLast? }
        else if m.ev.isHigh e then
          restoreHigh r.1 pfirstlow e rest
        else
          restoreLow r.1 pfirstlow e rest
        store fun t => { t with pl.cnt := t.pl.cnt + (rest.length + 1) }
        pure (.ok, rest.length + 1)

/-- `et_restore_in`, the copy of `et_restore` for the input list of a station.  It does not
touch the owners. -/
def restoreIn (nevents : ℕ) (pe : List ℕ) : Prog (ListMem F) (Ret × ℕ) := do
  let m ← get
  if nevents ≤ m.pl.cnt then pure (.error, 0)
  else
    let r := findLows m.ev m.pl.cnt none m.pl.firstevent
    let pfirstlow := if m.pl.cnt = 0 ∨ r.2.2 = m.pl.cnt then none else r.2.1
    match pe.take (nevents - m.pl.cnt) with
    | [] => pure (.ok, 0)
    | e :: rest => do
        if m.pl.cnt = 0 then do
          stringEvents (e :: rest)
          store fun t => { t with pl.firstevent := some e }
          store fun t => { t with pl.lastevent := (e :: rest).getLast? }
        else if m.ev.isHigh e then
          restoreHigh r.1 pfirstlow e rest
        else
          restoreLow r.1 pfirstlow e rest
        store fun t => { t with pl.cnt := t.pl.cnt + (rest.length + 1) }
        pure (.ok, rest.length + 1)

/-! ## What a merge does to the contents -/

/-- **The contents after a merge** of `new` into `xs`: the high-priority events `new` begins
with, those `xs` begins with, and then the rest of `new` and of `xs`. -/
def mergeEvents (high : ℕ → Bool) (xs new : List ℕ) : List ℕ :=
  if xs = [] then new
  else new.takeWhile high ++ xs.takeWhile high ++ new.dropWhile high ++ xs.dropWhile high

section Contents

variable {high : ℕ → Bool} {xs new : List ℕ}

@[simp] theorem mergeEvents_nil : mergeEvents high [] new = new := if_pos rfl

theorem mergeEvents_of_ne (h : xs ≠ []) : mergeEvents high xs new =
    new.takeWhile high ++ xs.takeWhile high ++ new.dropWhile high ++ xs.dropWhile high :=
  if_neg h

/-- Nothing is lost and nothing duplicated. -/
theorem mergeEvents_perm : (mergeEvents high xs new).Perm (xs ++ new) := by
  rcases eq_or_ne xs [] with rfl | h
  · rw [mergeEvents_nil, List.nil_append]
  · rw [mergeEvents_of_ne h]
    have hx : xs.takeWhile high ++ xs.dropWhile high = xs := List.takeWhile_append_dropWhile
    have hn : new.takeWhile high ++ new.dropWhile high = new := List.takeWhile_append_dropWhile
    generalize xs.takeWhile high = h₁ at hx ⊢
    generalize xs.dropWhile high = l₁ at hx ⊢
    generalize new.takeWhile high = h₂ at hn ⊢
    generalize new.dropWhile high = l₂ at hn ⊢
    rw [← hx, ← hn]
    calc h₂ ++ h₁ ++ l₂ ++ l₁ = h₂ ++ (h₁ ++ (l₂ ++ l₁)) := by simp
      _ |>.Perm (h₂ ++ (h₁ ++ (l₁ ++ l₂))) := ((List.perm_append_comm).append_left h₁).append_left h₂
      _ |>.Perm (h₁ ++ (l₁ ++ l₂) ++ h₂) := List.perm_append_comm
      _ |>.Perm (h₁ ++ l₁ ++ (h₂ ++ l₂)) := by
          rw [List.append_assoc, List.append_assoc, List.append_assoc]
          exact (List.perm_append_comm.append_left l₁).append_left h₁

@[simp] theorem mem_mergeEvents {a : ℕ} :
    a ∈ mergeEvents high xs new ↔ a ∈ xs ∨ a ∈ new := by
  rw [mergeEvents_perm.mem_iff, List.mem_append]

theorem length_mergeEvents : (mergeEvents high xs new).length = xs.length + new.length := by
  rw [mergeEvents_perm.length_eq, List.length_append]

end Contents

/-! ## Store by store -/

section Steps

variable {m t : ListMem F} {xs new pe : List ℕ} {e : ℕ}

/-- The heap of events with other links. -/
def ListMem.setLinks (m : ListMem F) (next : ℕ → Option ℕ) : ListMem F :=
  { m with ev := { m.ev with next := next } }

theorem wp_ownEvents {Q : PUnit → ListMem F → Prop}
    (hQ : Q ⟨⟩ { m with ev := m.ev.setOwners pe etSys }) :
    wp (ownEvents pe) (fun _ => True) Q m := by
  induction pe generalizing m with
  | nil =>
      rw [ownEvents, wp_pure]
      exact ⟨trivial, hQ⟩
  | cons e pe ih =>
      simp only [ownEvents, wp_bind, wp_store, true_and]
      exact ih hQ

theorem wp_stringEvents {Q : PUnit → ListMem F → Prop}
    (hQ : Q ⟨⟩ (m.setLinks (linkUp pe m.ev.next))) :
    wp (stringEvents pe) (fun _ => True) Q m := by
  induction pe generalizing m with
  | nil =>
      rw [stringEvents, wp_pure]
      · exact ⟨trivial, hQ⟩
      · exact nofun
  | cons a pe ih =>
      cases pe with
      | nil =>
          rw [stringEvents, wp_pure]
          · exact ⟨trivial, hQ⟩
          · exact nofun
      | cons b pe =>
          simp only [stringEvents, wp_bind, wp_store, true_and]
          exact ih hQ

/-- What `findLows` finds in a list. -/
theorem findLows_eq {ev : Events} {h : Option ℕ} {p : Option ℕ} (hl : Linked ev.next xs)
    (hp : xs ≠ [] → p = xs.head?) :
    (findLows ev xs.length h p).1 = (xs.takeWhile ev.isHigh).getLast?.or h ∧
      (xs.dropWhile ev.isHigh ≠ [] →
        (findLows ev xs.length h p).2.1 = (xs.dropWhile ev.isHigh).head?) ∧
      (findLows ev xs.length h p).2.2 = (xs.takeWhile ev.isHigh).length := by
  induction xs generalizing h p with
  | nil => exact ⟨rfl, fun hne => absurd rfl hne, rfl⟩
  | cons e xs ih =>
      rw [hp (List.cons_ne_nil e xs), List.head?_cons, List.length_cons]
      unfold findLows
      by_cases he : ev.isHigh e
      · have hnext : xs ≠ [] → ev.next e = xs.head? := by
          intro hne
          obtain ⟨b, ys, rfl⟩ := List.exists_cons_of_ne_nil hne
          exact ((linked_cons_cons _ _ _ _).mp hl).1
        obtain ⟨h1, h2, h3⟩ := ih (h := some e) (List.IsChain.tail hl) hnext
        simp only [he, if_true, List.takeWhile_cons_of_pos, List.dropWhile_cons_of_pos]
        refine ⟨?_, h2, by rw [h3, List.length_cons]⟩
        rw [h1, List.getLast?_cons]
        cases (xs.takeWhile ev.isHigh).getLast? <;> rfl
      · simp [he]

/-- **A merged list**: `zs` lies between the header's two pointers; nothing but links of
`zs` and these two pointers has changed. -/
structure Merged (m : ListMem F) (zs : List ℕ) (t : ListMem F) : Prop where
  spans : Spans t.ev.next t.pl.firstevent t.pl.lastevent zs
  frame : ∀ a, a ∉ zs → t.ev.next a = m.ev.next a
  rest : t = { m with
    ev := { m.ev with next := t.ev.next }
    pl := { m.pl with firstevent := t.pl.firstevent, lastevent := t.pl.lastevent } }

theorem exists_getLast? {ys : List ℕ} (h : ys ≠ []) : ∃ b, ys.getLast? = some b :=
  ⟨_, List.getLast?_eq_some_getLast h⟩

/-- **The merge of events of low priority** `new = e :: pe` between `hs` and `ls`. -/
theorem wp_restoreLow {hs ls : List ℕ} {Q : PUnit → ListMem F → Prop}
    (hxs : Spans m.ev.next m.pl.firstevent m.pl.lastevent (hs ++ ls)) (hne : hs ++ ls ≠ [])
    (hnd : (hs ++ (e :: pe) ++ ls).Nodup)
    (hQ : ∀ t, Merged m (hs ++ (e :: pe) ++ ls) t → Q ⟨⟩ t) :
    wp (restoreLow hs.getLast? ls.head? e pe) (fun _ => True) Q m := by
  have hnd₁ : (hs ++ (e :: pe)).Nodup := (List.nodup_append.mp hnd).1
  have hnd₂ : ((e :: pe) ++ ls).Nodup := by
    rw [List.append_assoc] at hnd
    exact (List.nodup_append.mp hnd).2.1
  obtain ⟨hlh, hll, -⟩ := linked_append.mp hxs.linked
  have hnewne : e :: pe ≠ [] := List.cons_ne_nil e pe
  obtain ⟨b, hb⟩ := exists_getLast? hnewne
  -- the batch strung together
  have hdh : ∀ a ∈ hs, a ∉ e :: pe :=
    fun a ha hn => (List.nodup_append.mp hnd₁).2.2 a ha a hn rfl
  have hdl : ∀ a ∈ ls, a ∉ e :: pe :=
    fun a ha hn => (List.nodup_append.mp hnd₂).2.2 a hn a ha rfl
  have hl₁ : Linked (linkUp (e :: pe) m.ev.next) (e :: pe) :=
    linked_linkUp (List.nodup_append.mp hnd₁).2.1
  have hlh₁ : Linked (linkUp (e :: pe) m.ev.next) hs := hlh.linkUp hdh
  have hll₁ : Linked (linkUp (e :: pe) m.ev.next) ls := hll.linkUp hdl
  have hframe : ∀ a, a ∉ e :: pe → linkUp (e :: pe) m.ev.next a = m.ev.next a :=
    fun a ha => linkUp_of_notMem fun hm => ha (List.mem_of_mem_dropLast hm)
  unfold restoreLow
  rw [wp_bind]
  refine wp_stringEvents ?_
  simp only [wp_ite, wp_bind, wp_store, true_and]
  by_cases hls : ls = []
  · subst hls
    rw [List.append_nil] at hxs hne hnd hQ
    obtain ⟨a, ha⟩ := exists_getLast? hne
    have hlast : m.pl.lastevent = some a := (hxs.last_eq hne).trans ha
    rw [List.head?_nil, if_pos rfl]
    have hfinal := hlh₁.join (v := some e) hl₁ hnd₁ ha rfl
    refine hQ _ ⟨⟨?_, hnd₁, fun _ => ?_, fun _ => ?_⟩, fun c hc => ?_, ?_⟩
    · simpa [ListMem.setLinks, hlast] using hfinal
    · rw [List.head?_append_of_ne_nil _ hne]
      exact hxs.first_eq hne
    · rw [List.getLast?_append_of_ne_nil _ hnewne]
    · have hca : c ≠ a := fun h => hc (h ▸ List.mem_append_left _ (List.mem_of_getLast? ha))
      have hcn : c ∉ e :: pe := fun h => hc (List.mem_append_right _ h)
      simp [ListMem.setLinks, hlast, hca, hframe c hcn]
    · simp only [ListMem.setLinks, hlast]
      rfl
  · rw [if_neg (by rwa [List.head?_eq_none_iff])]
    have hmemb : b ∈ e :: pe := List.mem_of_getLast? hb
    by_cases hhs : hs = []
    · subst hhs
      rw [List.nil_append] at hxs hnd hQ
      rw [if_neg (by simp)]
      have hfinal := hl₁.join (v := ls.head?) hll₁ hnd₂ hb rfl
      refine hQ _ ⟨⟨?_, hnd₂, fun _ => rfl, fun _ => ?_⟩, fun c hc => ?_, ?_⟩
      · simpa [ListMem.setLinks, hb] using hfinal
      · rw [List.getLast?_append_of_ne_nil _ hls]
        exact hxs.last_eq hls
      · have hcb : c ≠ b := fun h => hc (h ▸ List.mem_append_left _ hmemb)
        have hcn : c ∉ e :: pe := fun h => hc (List.mem_append_left _ h)
        simp [ListMem.setLinks, hb, hcb, hframe c hcn]
      · simp only [ListMem.setLinks, hb]
        rfl
    · obtain ⟨a, ha⟩ := exists_getLast? hhs
      rw [if_pos (by simp [ha])]
      have hmema : a ∈ hs := List.mem_of_getLast? ha
      have hlow : Linked (Function.update (linkUp (e :: pe) m.ev.next) a (some e)) ls := by
        refine hll₁.update (fun hm => ?_) _
        exact (List.nodup_append.mp hnd).2.2 a (List.mem_append_left _ hmema) a
          (List.mem_of_mem_dropLast hm) rfl
      have hlast : (hs ++ e :: pe).getLast? = some b := by
        rw [List.getLast?_append_of_ne_nil _ hnewne, hb]
      have hfinal := (hlh₁.join (v := some e) hl₁ hnd₁ ha rfl).join (v := ls.head?) hlow hnd
        hlast rfl
      refine hQ _ ⟨⟨?_, hnd, fun _ => ?_, fun _ => ?_⟩, fun c hc => ?_, ?_⟩
      · simpa [ListMem.setLinks, ha, hb] using hfinal
      · rw [List.append_assoc, List.head?_append_of_ne_nil _ hhs]
        exact (hxs.first_eq hne).trans (List.head?_append_of_ne_nil _ hhs)
      · rw [List.getLast?_append_of_ne_nil _ hls]
        exact (hxs.last_eq hne).trans (List.getLast?_append_of_ne_nil _ hls)
      · simp only [List.mem_append, not_or] at hc
        have hca : c ≠ a := fun h => hc.1.1 (h ▸ hmema)
        have hcb : c ≠ b := fun h => hc.1.2 (h ▸ hmemb)
        simp [ListMem.setLinks, ha, hb, hca, hcb, hframe c hc.1.2]
      · simp only [ListMem.setLinks, ha, hb]
        rfl

/-- The loop over the events of high priority: they follow `last`, and the last of them is
linked to `pfirst`. -/
theorem wp_restoreHighs {pfirst : Option ℕ} {u : List ℕ} {last : ℕ}
    {Q : ℕ × List ℕ → ListMem F → Prop} (hus : Linked m.ev.next (u ++ [last]))
    (hlast : m.ev.next last = pfirst) (hnd : (u ++ last :: pe).Nodup)
    (hQ : ∀ next' last', Linked next' (u ++ last :: pe.takeWhile m.ev.isHigh) →
      (last :: pe.takeWhile m.ev.isHigh).getLast? = some last' → next' last' = pfirst →
      (∀ a, a ∉ last :: pe.takeWhile m.ev.isHigh → next' a = m.ev.next a) →
      Q (last', pe.dropWhile m.ev.isHigh) (m.setLinks next')) :
    wp (restoreHighs pfirst last pe) (fun _ => True) Q m := by
  induction pe generalizing u last m with
  | nil =>
      rw [restoreHighs, wp_pure]
      exact ⟨trivial, hQ m.ev.next last hus rfl hlast fun _ _ => rfl⟩
  | cons e pe ih =>
      simp only [restoreHighs, wp_bind, wp_get, wp_ite, wp_store, wp_pure, true_and]
      split
      case isFalse he =>
        have htake : (e :: pe).takeWhile m.ev.isHigh = [] := List.takeWhile_cons_of_neg he
        have hdrop : (e :: pe).dropWhile m.ev.isHigh = e :: pe := List.dropWhile_cons_of_neg he
        rw [htake, hdrop] at hQ
        exact hQ m.ev.next last hus rfl hlast fun _ _ => rfl
      case isTrue he =>
        have htake : (e :: pe).takeWhile m.ev.isHigh = e :: pe.takeWhile m.ev.isHigh :=
          List.takeWhile_cons_of_pos he
        have hdrop : (e :: pe).dropWhile m.ev.isHigh = pe.dropWhile m.ev.isHigh :=
          List.dropWhile_cons_of_pos he
        rw [htake, hdrop] at hQ
        have hnd' : (u ++ [last] ++ e :: pe).Nodup := by simpa using hnd
        have hnd₁ : (u ++ [last] ++ [e]).Nodup := by
          refine hnd'.sublist (List.Sublist.append_left ?_ _)
          exact List.Sublist.cons_cons e (List.nil_sublist pe)
        have hne : e ≠ last := by
          rintro rfl
          exact (List.nodup_append.mp hnd₁).2.2 e (by simp) e (by simp) rfl
        have hjoin := hus.join (a := last) (v := some e) (linked_singleton _ e) hnd₁
          (by simp) rfl
        have hnext := hjoin.update (a := e) (by
          rw [List.dropLast_concat]
          exact fun hm => (List.nodup_append.mp hnd₁).2.2 e hm e (by simp) rfl) pfirst
        refine ih (u := u ++ [last]) hnext (Function.update_self _ _ _) hnd' ?_
        intro next' last' hl hget hfirst hframe
        have hhigh : ((m.ev.setNext (some last) (some e)).setNext (some e) pfirst).isHigh =
            m.ev.isHigh := by simp
        dsimp only at hl hget hframe ⊢
        rw [hhigh] at hl hget hframe ⊢
        refine hQ next' last' (by simpa using hl) ?_ hfirst fun a ha => ?_
        · rw [List.getLast?_cons_cons]
          exact hget
        · rw [hframe a fun hm => ha (List.mem_cons_of_mem _ hm)]
          have hal : a ≠ last := fun h => ha (h ▸ List.mem_cons_self)
          have hae : a ≠ e := fun h => ha (h ▸ List.mem_cons_of_mem _ List.mem_cons_self)
          simp [hal, hae]

theorem linked_append_of_next {next : ℕ → Option ℕ} {u vs : List ℕ} {a : ℕ}
    (hu : Linked next u) (hv : Linked next vs) (ha : u.getLast? = some a)
    (hnext : next a = vs.head?) : Linked next (u ++ vs) := by
  refine linked_append.mpr ⟨hu, hv, fun c hc b hb => ?_⟩
  obtain rfl : a = c := Option.some.inj (ha.symm.trans hc)
  rw [hnext]
  exact hb

/-- **The merge of a batch** `e :: pe` that begins with an event of high priority. -/
theorem wp_restoreHigh {hs ls : List ℕ} {Q : PUnit → ListMem F → Prop}
    (hxs : Spans m.ev.next m.pl.firstevent m.pl.lastevent (hs ++ ls)) (hne : hs ++ ls ≠ [])
    (hnd : ((e :: pe.takeWhile m.ev.isHigh) ++ hs ++ pe.dropWhile m.ev.isHigh ++ ls).Nodup)
    (hQ : ∀ t, Merged m ((e :: pe.takeWhile m.ev.isHigh) ++ hs ++
      pe.dropWhile m.ev.isHigh ++ ls) t → Q ⟨⟩ t) :
    wp (restoreHigh hs.getLast? ls.head? e pe) (fun _ => True) Q m := by
  have hsplit : pe.takeWhile m.ev.isHigh ++ pe.dropWhile m.ev.isHigh = pe :=
    List.takeWhile_append_dropWhile
  have hfirst := hxs.first_eq hne
  obtain ⟨hlh, hll, -⟩ := linked_append.mp hxs.linked
  have hndpe : (e :: pe).Nodup := by
    rw [← hsplit, ← List.cons_append]
    refine hnd.sublist ?_
    rw [List.append_assoc, List.append_assoc]
    refine List.Sublist.append_left ?_ _
    exact (List.sublist_append_left _ ls).trans (List.sublist_append_right hs _)
  unfold restoreHigh
  simp only [wp_bind, wp_get, wp_store, true_and]
  refine wp_restoreHighs (u := []) (linked_singleton _ e) (by simp) hndpe ?_
  have hhigh : (m.ev.setNext (some e) m.pl.firstevent).isHigh = m.ev.isHigh := by simp
  dsimp only
  rw [hhigh]
  generalize hnh : e :: pe.takeWhile m.ev.isHigh = nh at hnd hQ ⊢
  generalize pe.dropWhile m.ev.isHigh = nl at hnd hQ ⊢
  intro next₁ last' hl₁ hget hlink hframe₁
  rw [List.nil_append] at hl₁
  have hheadnh : nh.head? = some e := by rw [← hnh, List.head?_cons]
  have hnhne : nh ≠ [] := by rw [← hnh]; exact List.cons_ne_nil _ _
  have hframe : ∀ a, a ∉ nh → next₁ a = m.ev.next a := by
    intro a ha
    rw [hframe₁ a ha]
    have hae : a ≠ e := fun h => ha (h ▸ List.mem_of_mem_head? hheadnh)
    simp [hae]
  have hd := List.nodup_append.mp hnd
  have hd' := List.nodup_append.mp hd.1
  have hd'' := List.nodup_append.mp hd'.1
  have hlh₁ : Linked next₁ hs :=
    hlh.congr fun a ha => hframe a fun hm => hd''.2.2 a hm a ha rfl
  have hll₁ : Linked next₁ ls := hll.congr fun a ha => hframe a fun hm =>
    hd.2.2 a (List.mem_append_left _ (List.mem_append_left _ hm)) a ha rfl
  cases nl with
  | nil =>
      simp only [wp_pure, true_and]
      rw [List.append_nil] at hnd hQ
      refine hQ _ ⟨⟨?_, hnd, fun _ => ?_, fun _ => ?_⟩, fun c hc => ?_, rfl⟩
      · have hxs₁ : Linked next₁ (hs ++ ls) := hxs.linked.congr fun a ha => hframe a fun hm => by
          rw [List.append_assoc] at hnd
          exact (List.nodup_append.mp hnd).2.2 a hm a ha rfl
        rw [List.append_assoc]
        exact linked_append_of_next hl₁ hxs₁ hget (hlink.trans hfirst)
      · rw [List.append_assoc, List.head?_append_of_ne_nil _ hnhne, hheadnh]
        rfl
      · rw [List.append_assoc, List.getLast?_append_of_ne_nil _ hne]
        exact hxs.last_eq hne
      · exact hframe c fun hm => hc (List.mem_append_left _ (List.mem_append_left _ hm))
  | cons low rest =>
      have hnlne : low :: rest ≠ [] := List.cons_ne_nil _ _
      obtain ⟨b, hb⟩ := exists_getLast? hnlne
      have hmemb : b ∈ low :: rest := List.mem_of_getLast? hb
      dsimp only
      rw [wp_bind]
      refine wp_stringEvents ?_
      simp only [wp_ite, wp_bind, wp_store, true_and]
      have hmeml : last' ∈ nh := List.mem_of_getLast? hget
      have hnhnl : ∀ a ∈ nh, a ∉ low :: rest :=
        fun a ha hn => hd'.2.2 a (List.mem_append_left _ ha) a hn rfl
      have hhsnl : ∀ a ∈ hs, a ∉ low :: rest :=
        fun a ha hn => hd'.2.2 a (List.mem_append_right _ ha) a hn rfl
      have hlsnl : ∀ a ∈ ls, a ∉ low :: rest :=
        fun a ha hn => hd.2.2 a (List.mem_append_right _ hn) a ha rfl
      have hnl₂ : Linked (linkUp (low :: rest) next₁) (low :: rest) := linked_linkUp hd'.2.1
      have hl₂ := hl₁.linkUp hnhnl
      have hlh₂ := hlh₁.linkUp hhsnl
      have hll₂ := hll₁.linkUp hlsnl
      have hlink₂ : linkUp (low :: rest) next₁ last' = (hs ++ ls).head? := by
        rw [linkUp_of_notMem fun hm => hnhnl last' hmeml (List.mem_of_mem_dropLast hm), hlink,
          hfirst]
      have hframe₂ : ∀ a, a ∉ nh → a ∉ low :: rest →
          linkUp (low :: rest) next₁ a = m.ev.next a := fun a ha hn =>
        (linkUp_of_notMem fun hm => hn (List.mem_of_mem_dropLast hm)).trans (hframe a ha)
      have hstart : (nh ++ hs ++ (low :: rest) ++ ls).head? = some e := by
        rw [List.append_assoc, List.append_assoc, List.head?_append_of_ne_nil _ hnhne, hheadnh]
      by_cases hls : ls = []
      · subst hls
        rw [List.append_nil] at hne hxs hfirst hnd hQ hstart hlink₂
        obtain ⟨a, ha⟩ := exists_getLast? hne
        have hmema : a ∈ hs := List.mem_of_getLast? ha
        have hanh : a ∉ nh := fun hm => hd''.2.2 a hm a hmema rfl
        have hlast : m.pl.lastevent = some a := (hxs.last_eq hne).trans ha
        rw [List.head?_nil, if_pos rfl]
        have hnd₁ : (hs ++ low :: rest).Nodup := by
          rw [List.append_assoc] at hnd
          exact (List.nodup_append.mp hnd).2.1
        have hjoin := hlh₂.join (v := some low) hnl₂ hnd₁ ha rfl
        have hal : last' ≠ a := fun h => hanh (h ▸ hmeml)
        refine hQ _ ⟨⟨?_, hnd, fun _ => hstart.symm, fun _ => ?_⟩, fun c hc => ?_, ?_⟩
        · rw [List.append_assoc]
          have hnh₃ := hl₂.update (a := a) (fun hm => hanh (List.mem_of_mem_dropLast hm)) (some low)
          have := linked_append_of_next hnh₃ hjoin hget (by
            rw [Function.update_of_ne hal, hlink₂, List.head?_append_of_ne_nil _ hne])
          simpa [ListMem.setLinks, hlast] using this
        · rw [List.getLast?_append_of_ne_nil _ hnlne]
        · simp only [List.mem_append, not_or] at hc
          have hca : c ≠ a := fun h => hc.1.2 (h ▸ hmema)
          simp [ListMem.setLinks, hlast, hca, hframe₂ c hc.1.1 hc.2]
        · simp only [ListMem.setLinks, hlast]
          rfl
      · rw [if_neg (by rwa [List.head?_eq_none_iff])]
        have hbnh : b ∉ nh := fun hm => hnhnl b hm hmemb
        have hbls : b ∉ ls := fun hm => hlsnl b hm hmemb
        by_cases hhs : hs = []
        · subst hhs
          rw [List.append_nil] at hnd hQ hstart
          rw [List.nil_append] at hxs hfirst hlink₂
          rw [if_neg (by simp)]
          have hnd₁ : (nh ++ low :: rest).Nodup := (List.nodup_append.mp hnd).1
          have hlast : (nh ++ low :: rest).getLast? = some b := by
            rw [List.getLast?_append_of_ne_nil _ hnlne, hb]
          have hlls : last' ∉ ls := fun hm =>
            (List.nodup_append.mp hnd).2.2 last' (List.mem_append_left _ hmeml) last' hm rfl
          have hjoin := (hl₂.join (v := some low) hnl₂ hnd₁ hget rfl).join (v := ls.head?)
            (hll₂.update (fun hm => hlls (List.mem_of_mem_dropLast hm)) _) hnd hlast rfl
          refine hQ _ ⟨⟨?_, hnd, fun _ => hstart.symm, fun _ => ?_⟩, fun c hc => ?_, ?_⟩
          · simpa [ListMem.setLinks, hb] using hjoin
          · rw [List.getLast?_append_of_ne_nil _ hls]
            exact hxs.last_eq hls
          · simp only [List.mem_append, not_or] at hc
            have hcl : c ≠ last' := fun h => hc.1.1 (h ▸ hmeml)
            have hcb : c ≠ b := fun h => hc.1.2 (h ▸ hmemb)
            simp [ListMem.setLinks, hb, hcl, hcb, hframe₂ c hc.1.1 hc.1.2]
          · simp only [ListMem.setLinks, hb]
            rfl
        · obtain ⟨a, ha⟩ := exists_getLast? hhs
          rw [if_pos (by simp [ha])]
          have hmema : a ∈ hs := List.mem_of_getLast? ha
          have hanh : a ∉ nh := fun hm => hd''.2.2 a hm a hmema rfl
          have hals : a ∉ ls := fun hm =>
            hd.2.2 a (List.mem_append_left _ (List.mem_append_right _ hmema)) a hm rfl
          have hnd₀ : (hs ++ low :: rest ++ ls).Nodup := by
            rw [List.append_assoc, List.append_assoc, ← List.append_assoc hs] at hnd
            exact (List.nodup_append.mp hnd).2.1
          have hlast : (hs ++ low :: rest).getLast? = some b := by
            rw [List.getLast?_append_of_ne_nil _ hnlne, hb]
          have hjoin := (hlh₂.join (v := some low) hnl₂ (List.nodup_append.mp hnd₀).1 ha rfl).join
            (v := ls.head?) (hll₂.update (fun hm => hals (List.mem_of_mem_dropLast hm)) _) hnd₀
            hlast rfl
          have hnh₄ := (hl₂.update (a := a) (fun hm => hanh (List.mem_of_mem_dropLast hm))
            (some low)).update (a := b) (fun hm => hbnh (List.mem_of_mem_dropLast hm)) ls.head?
          have hla : last' ≠ a := fun h => hanh (h ▸ hmeml)
          have hlb : last' ≠ b := fun h => hbnh (h ▸ hmeml)
          have hall := linked_append_of_next hnh₄ hjoin hget (by
            rw [Function.update_of_ne hlb, Function.update_of_ne hla, hlink₂, List.append_assoc,
              List.head?_append_of_ne_nil _ hhs, List.head?_append_of_ne_nil _ hhs])
          refine hQ _ ⟨⟨?_, hnd, fun _ => hstart.symm, fun _ => ?_⟩, fun c hc => ?_, ?_⟩
          · rw [← List.append_assoc, ← List.append_assoc] at hall
            simpa [ListMem.setLinks, ha, hb] using hall
          · rw [List.getLast?_append_of_ne_nil _ hls]
            exact (hxs.last_eq hne).trans (List.getLast?_append_of_ne_nil _ hls)
          · simp only [List.mem_append, not_or] at hc
            have hca : c ≠ a := fun h => hc.1.1.2 (h ▸ hmema)
            have hcb : c ≠ b := fun h => hc.1.2 (h ▸ hmemb)
            simp [ListMem.setLinks, ha, hb, hca, hcb, hframe₂ c hc.1.1.1 hc.1.2]
          · simp only [ListMem.setLinks, ha, hb]
            rfl

/-- **A merge that leaves the owners**: the list has gone from `xs` to the merge with `new`;
the cached count of high-priority events is as it was. -/
structure RestoredIn (m : ListMem F) (xs new : List ℕ) (t : ListMem F) : Prop where
  isList : IsList t.ev t.pl (mergeEvents m.ev.isHigh xs new)
  hdr : t.ev.hdr = m.ev.hdr
  next : ∀ a, a ∉ xs ++ new → t.ev.next a = m.ev.next a
  owner : t.ev.owner = m.ev.owner
  rest : t.fix = m.fix ∧ t.pl.lasthigh = m.pl.lasthigh ∧ t.pl.eventsTry = m.pl.eventsTry ∧
    t.pl.eventsIn = m.pl.eventsIn ∧ t.pl.eventsOut = m.pl.eventsOut

/-- **A complete merge**: the list has gone from `xs` to the merge with `new`, whose events
belong to the system; the cached count of high-priority events is as it was. -/
structure Restored (m : ListMem F) (xs new : List ℕ) (t : ListMem F) : Prop where
  isList : IsList t.ev t.pl (mergeEvents m.ev.isHigh xs new)
  hdr : t.ev.hdr = m.ev.hdr
  next : ∀ a, a ∉ xs ++ new → t.ev.next a = m.ev.next a
  owner : ∀ a, t.ev.owner a = if a ∈ new then etSys else m.ev.owner a
  rest : t.fix = m.fix ∧ t.pl.lasthigh = m.pl.lasthigh ∧ t.pl.eventsTry = m.pl.eventsTry ∧
    t.pl.eventsIn = m.pl.eventsIn ∧ t.pl.eventsOut = m.pl.eventsOut

/-- **`et_restore_in`** of a batch that has room: the links, the header of the list and its
count change, and nothing else. -/
theorem wp_restoreIn {nevents : ℕ} (h : IsList m.ev m.pl xs) (hne : new ≠ []) (hnd : new.Nodup)
    (hdis : ∀ a ∈ new, a ∉ xs) (hroom : xs.length + new.length ≤ nevents) :
    wp (restoreIn nevents new) (fun _ => True)
      (fun r t => r = (.ok, new.length) ∧ RestoredIn m xs new t) m := by
  have hcnt := h.cnt_eq
  obtain ⟨e, pe, rfl⟩ := List.exists_cons_of_ne_nil hne
  have hlt : ¬ nevents ≤ m.pl.cnt := by
    rw [List.length_cons] at hroom
    omega
  have htake : (e :: pe).take (nevents - m.pl.cnt) = e :: pe := by
    refine List.take_of_length_le ?_
    omega
  have hndall : (xs ++ (e :: pe)).Nodup :=
    List.nodup_append.mpr ⟨h.spans.nodup, hnd, fun a ha b hb hab => hdis b hb (hab ▸ ha)⟩
  -- whatever way the events were linked, the rest is the same
  have finish : ∀ t : ListMem F, Merged m (mergeEvents m.ev.isHigh xs (e :: pe)) t →
      RestoredIn m xs (e :: pe) { t with pl.cnt := t.pl.cnt + (pe.length + 1) } := by
    rintro t ⟨hspans, hframe, hrest⟩
    rw [hrest]
    refine ⟨⟨?_, hspans⟩, rfl, fun a ha => ?_, rfl, rfl, rfl, rfl, rfl, rfl⟩
    · rw [length_mergeEvents, ← hcnt]
      rfl
    · exact hframe a fun hm => ha (List.mem_append.mpr (mem_mergeEvents.mp hm))
  unfold restoreIn
  simp only [wp_bind, wp_get, wp_ite, if_neg hlt, htake, wp_store, wp_pure, true_and]
  rcases eq_or_ne xs [] with rfl | hxs
  · rw [if_pos (hcnt.trans List.length_nil)]
    refine wp_stringEvents ?_
    refine ⟨rfl, finish ⟨⟨linkUp (e :: pe) m.ev.next, _, _⟩,
        { m.pl with firstevent := some e, lastevent := (e :: pe).getLast? }, m.fix⟩
      ⟨⟨?_, ?_, fun _ => ?_, fun _ => ?_⟩, fun a ha => ?_, rfl⟩⟩
    · rw [mergeEvents_nil]
      exact linked_linkUp hnd
    · rw [mergeEvents_nil]
      exact hnd
    · rw [mergeEvents_nil, List.head?_cons]
    · rw [mergeEvents_nil]
    · rw [mergeEvents_nil] at ha
      exact linkUp_of_notMem fun hm => ha (List.mem_of_mem_dropLast hm)
  · have hcnt0 : m.pl.cnt ≠ 0 := by
      rw [hcnt]
      exact fun hz => hxs (List.length_eq_zero_iff.mp hz)
    have hsplit : xs.takeWhile m.ev.isHigh ++ xs.dropWhile m.ev.isHigh = xs :=
      List.takeWhile_append_dropWhile
    obtain ⟨hfind₁, hfind₂, hfind₃⟩ := findLows_eq (h := none) h.spans.linked
      h.spans.first_eq
    rw [← hcnt] at hfind₁ hfind₂ hfind₃
    rw [Option.or_none] at hfind₁
    have hlow : (if m.pl.cnt = 0 ∨ (findLows m.ev m.pl.cnt none m.pl.firstevent).2.2 = m.pl.cnt
        then none else (findLows m.ev m.pl.cnt none m.pl.firstevent).2.1) =
        (xs.dropWhile m.ev.isHigh).head? := by
      have hlen := congrArg List.length hsplit
      rw [List.length_append, ← hcnt] at hlen
      rw [hfind₃]
      by_cases hls : xs.dropWhile m.ev.isHigh = []
      · rw [hls, List.length_nil] at hlen
        rw [if_pos (.inr hlen), hls, List.head?_nil]
      · have hpos := List.length_pos_of_ne_nil hls
        rw [if_neg (by omega), hfind₂ hls]
    have hspans : Spans m.ev.next m.pl.firstevent m.pl.lastevent
        (xs.takeWhile m.ev.isHigh ++ xs.dropWhile m.ev.isHigh) := by
      rw [hsplit]
      exact h.spans
    have hperm : (xs ++ e :: pe).Perm (mergeEvents m.ev.isHigh xs (e :: pe)) :=
      mergeEvents_perm.symm
    have hndzs := hperm.nodup_iff.mp hndall
    rw [mergeEvents_of_ne hxs] at hndzs finish
    rw [if_neg hcnt0, hlow, hfind₁]
    split
    case isTrue he =>
      rw [List.takeWhile_cons_of_pos he, List.dropWhile_cons_of_pos he] at hndzs finish
      exact wp_restoreHigh hspans (by rwa [hsplit]) hndzs fun t ht => ⟨rfl, finish t ht⟩
    case isFalse he =>
      rw [List.takeWhile_cons_of_neg he, List.dropWhile_cons_of_neg he, List.nil_append]
        at hndzs finish
      exact wp_restoreLow hspans (by rwa [hsplit]) hndzs fun t ht => ⟨rfl, finish t ht⟩

/-- What is found does not depend on the owners. -/
theorem findLows_setOwners (ev : Events) (es : List ℕ) (att : ℤ) (n : ℕ) (h p : Option ℕ) :
    findLows (ev.setOwners es att) n h p = findLows ev n h p := by
  induction n generalizing h p with
  | zero => cases p <;> rfl
  | succ n ih =>
      cases p with
      | none => rfl
      | some e =>
          have hhigh : (ev.setOwners es att).isHigh e = ev.isHigh e := by
            simp only [Events.isHigh, Events.setOwners_hdr]
          simp only [findLows, ih, hhigh, Events.setOwners_next]

/-- **`et_restore`** of a batch that has room: it is `et_restore_in` after the events have been
given to the system. -/
theorem wp_restore {nevents : ℕ} (h : IsList m.ev m.pl xs) (hne : new ≠ []) (hnd : new.Nodup)
    (hdis : ∀ a ∈ new, a ∉ xs) (hroom : xs.length + new.length ≤ nevents) :
    wp (restore nevents new) (fun _ => True)
      (fun r t => r = (.ok, new.length) ∧ Restored m xs new t) m := by
  obtain ⟨e, pe, rfl⟩ := List.exists_cons_of_ne_nil hne
  have hlt : ¬ nevents ≤ m.pl.cnt := by
    rw [h.cnt_eq]
    rw [List.length_cons] at hroom
    omega
  have htake : (e :: pe).take (nevents - m.pl.cnt) = e :: pe := by
    rw [h.cnt_eq]
    exact List.take_of_length_le (by omega)
  have hhigh : (m.ev.setOwners (e :: pe) etSys).isHigh = m.ev.isHigh := by
    funext a
    simp only [Events.isHigh, Events.setOwners_hdr]
  have hnext : (m.ev.setOwners (e :: pe) etSys).next = m.ev.next := Events.setOwners_next _ _ _
  have owned : IsList (m.ev.setOwners (e :: pe) etSys) m.pl xs :=
    h.congr fun a _ => congrFun hnext a
  have merge := wp_restoreIn (m := { m with ev := m.ev.setOwners (e :: pe) etSys }) owned hne hnd
    hdis hroom
  unfold restoreIn at merge
  unfold restore
  rw [wp_bind, wp_get, if_neg hlt, htake] at merge ⊢
  refine ⟨trivial, ?_⟩
  dsimp only
  rw [wp_bind]
  refine wp_ownEvents ?_
  rw [findLows_setOwners, hhigh] at merge
  refine wp_mono merge.2 (fun _ _ => trivial) ?_
  rintro r t - ⟨rfl, ht⟩
  refine ⟨rfl, ?_, ?_, fun a ha => ?_, fun a => ?_, ht.rest⟩
  · rw [← hhigh]
    exact ht.isList
  · exact ht.hdr.trans (Events.setOwners_hdr _ _ _)
  · rw [ht.next a ha, hnext]
  · rw [ht.owner, Events.setOwners_owner]

end Steps

end EventTransfer
