import EventTransfer.InputRead

/-!
# Reading one group out of the middle of a list

`et_station_nread_group` unlinks the events of one group wherever they are in the
list.  Events at the head of the list are left behind by moving the list's first
pointer; later ones are unlinked by leading the link of the last event kept past
them.

* `GroupScan` — the invariant of the scan.
* `wp_stationNreadGroup` — every memory in which the scan can be interrupted is a
  `ReadCrash`, or lies in one of two windows (`GroupWindow`) that open when the last
  event of the list is taken.
* `recovers_iff_of_unlinked`, `not_recovers_of_emptied` — what the repair does there.
* `inputlist_recovers_iff` — the result for all three readers.
-/

namespace EventTransfer

open LinkedHeap StoreProgram StoreProgram.Prog

/-- The owner and the link that take the event `e` out of the list: `prev` is the last
event kept before it. -/
def unlinkEvent (att : ℤ) (prev : Option ℕ) (e : ℕ) (t : InMem) : InMem :=
  if prev = none then
    ⟨t.ev.setOwner e att, { t.pl with firstevent := t.ev.next e }, t.fix⟩
  else ⟨(t.ev.setOwner e att).setNext prev (t.ev.next e), t.pl, t.fix⟩

/-- The repair notes of a read of `n` events. -/
def readNotes (m : InMem) (n : ℕ) : FixIn :=
  { m.fix with cnt := m.pl.cnt, num := n, call := .read, first := m.pl.firstevent }

/-- **The scan in progress**: of the list `xs`, `pre` has been looked at and `post`
has not.  `kept` are the events of `pre` without `p`; `hd` are the taken events that
a walk from the noted first event still meets, those at the head of the list. -/
structure GroupScan (att : ℤ) (m : InMem) (xs : List ℕ) (p : ℕ → Bool) (n : ℕ)
    (hd kept pre post : List ℕ) (t : InMem) : Prop where
  split : xs = pre ++ post
  kept_eq : kept = pre.filter (! p ·)
  walk_sub : ∃ us vs, pre = us ++ vs ∧ (hd ++ kept).Sublist us ∧ (∀ a ∈ vs, p a = true) ∧
    (kept ≠ [] → us.getLast? = kept.getLast?)
  hd_eq : kept = [] → hd = pre
  head_eq : (hd ++ kept ++ post).head? = xs.head?
  hdr : t.ev.hdr = m.ev.hdr
  owner : ∀ a, t.ev.owner a = if a ∈ pre.filter p then att else m.ev.owner a
  next : ∀ a, a ∉ kept → t.ev.next a = m.ev.next a
  linked : Linked t.ev.next (hd ++ kept ++ post)
  first_eq : kept ++ post ≠ [] → t.pl.firstevent = (kept ++ post).head?
  list_eq : t.pl = { m.pl with firstevent := t.pl.firstevent, lastevent := t.pl.lastevent }
  fix_eq : t.fix = readNotes m n

namespace GroupScan

variable {att : ℤ} {m t : InMem} {xs hd kept pre post : List ℕ} {p : ℕ → Bool} {n e : ℕ}

theorem hd_sub (h : GroupScan att m xs p n hd kept pre post t) : (hd ++ kept).Sublist pre := by
  obtain ⟨us, vs, hpre, hsub, -, -⟩ := h.walk_sub
  rw [hpre]
  exact hsub.trans (List.sublist_append_left us vs)

/-- The scan begins. -/
theorem start (h : Readable m xs) :
    GroupScan att m xs p n [] [] [] xs { m with fix := readNotes m n } where
  split := rfl
  kept_eq := rfl
  walk_sub := ⟨[], [], rfl, List.Sublist.refl _, by simp, fun h => absurd rfl h⟩
  hd_eq _ := rfl
  head_eq := rfl
  hdr := rfl
  owner a := by simp
  next _ _ := rfl
  linked := h.isList.spans.linked
  first_eq := h.isList.spans.first_eq
  list_eq := rfl
  fix_eq := rfl

/-- An event without `p` is kept. -/
theorem skip (h : GroupScan att m xs p n hd kept pre (e :: post) t) (hp : p e = false) :
    GroupScan att m xs p n hd (kept ++ [e]) (pre ++ [e]) post t := by
  have happ : hd ++ (kept ++ [e]) ++ post = hd ++ kept ++ e :: post := by simp
  have happ' : kept ++ [e] ++ post = kept ++ e :: post := by simp
  refine ⟨?_, ?_, ?_, ?_, ?_, h.hdr, ?_, ?_, ?_, ?_, h.list_eq, h.fix_eq⟩
  · simpa using h.split
  · rw [List.filter_append, ← h.kept_eq, List.filter_singleton, hp]
    rfl
  · refine ⟨pre ++ [e], [], by simp, ?_, by simp, by simp⟩
    rw [← List.append_assoc]
    exact h.hd_sub.append (List.Sublist.refl _)
  · simp
  · rw [happ]
    exact h.head_eq
  · intro a
    rw [List.filter_append, List.filter_singleton, hp, h.owner]
    simp
  · intro a ha
    exact h.next a fun hk => ha (List.mem_append_left _ hk)
  · rw [happ]
    exact h.linked
  · rw [happ']
    exact h.first_eq

/-- The nodes of a list are linked as its order says. -/
theorem next_eq_head? {next : ℕ → Option ℕ} {us vs : List ℕ} {e : ℕ}
    (h : Linked next (us ++ e :: vs)) (hne : vs ≠ []) : next e = vs.head? := by
  obtain ⟨b, vs, rfl⟩ := List.exists_cons_of_ne_nil hne
  have := (linked_append.mp h).2.1
  exact ((linked_cons_cons _ _ _ _).mp this).1

/-- An event with `p` is taken out. -/
theorem take (h : GroupScan att m xs p n hd kept pre (e :: post) t) (hd' : xs.Nodup)
    (hp : p e = true) :
    GroupScan att m xs p n (if kept = [] then hd ++ [e] else hd) kept (pre ++ [e]) post
      (unlinkEvent att kept.getLast? e t) := by
  have hkeptsub : kept ⊆ pre := by
    rw [h.kept_eq]
    exact List.filter_sublist.subset
  have hdis : ∀ a ∈ pre, a ∉ e :: post := by
    have := h.split ▸ hd'
    exact fun a ha hb => (List.nodup_append.mp this).2.2 a ha a hb rfl
  have hekept : e ∉ kept := fun hk => hdis e (hkeptsub hk) (by simp)
  have hfilter : (pre ++ [e]).filter p = pre.filter p ++ [e] := by
    rw [List.filter_append, List.filter_singleton, hp]
    rfl
  have howner : ∀ a, (t.ev.setOwner e att).owner a =
      if a ∈ (pre ++ [e]).filter p then att else m.ev.owner a := by
    intro a
    rw [hfilter, Events.setOwner_owner, Function.update_apply, h.owner]
    by_cases hae : a = e
    · simp [hae]
    · simp [hae]
  have hsplit : xs = (pre ++ [e]) ++ post := by simpa using h.split
  have hkept : kept = (pre ++ [e]).filter (! p ·) := by
    rw [List.filter_append, ← h.kept_eq, List.filter_singleton, hp]
    simp
  have hnext : post ≠ [] → t.ev.next e = post.head? := next_eq_head? h.linked
  unfold unlinkEvent
  by_cases hk : kept = []
  · -- nothing is kept before `e`: the head of the list moves on
    subst hk
    have hpre := h.hd_eq rfl
    rw [List.getLast?_nil, if_pos rfl, if_pos rfl]
    refine ⟨hsplit, hkept, ?_, ?_, ?_, h.hdr, howner, h.next, ?_, ?_, ?_, h.fix_eq⟩
    · exact ⟨pre ++ [e], [], by simp, by simp [hpre], by simp, fun h => absurd rfl h⟩
    · intro _
      rw [hpre]
    · simpa using h.head_eq
    · simpa using h.linked
    · exact hnext
    · rw [h.list_eq]
  · -- the link of the last event kept is led past `e`
    obtain ⟨ks, P, rfl⟩ : ∃ ks P, kept = ks ++ [P] :=
      ⟨kept.dropLast, kept.getLast hk, (List.dropLast_append_getLast hk).symm⟩
    have hP : (ks ++ [P]).getLast? = some P := List.getLast?_concat
    have hlink := linked_append.mp h.linked
    have hnd := hd'.sublist (h.split ▸ h.hd_sub.append (List.Sublist.refl (e :: post)))
    rw [hP, if_neg (Option.some_ne_none P), if_neg hk]
    refine ⟨hsplit, hkept, ?_, fun hk' => absurd hk' hk, ?_, ?_, ?_, ?_, ?_, ?_, h.list_eq,
      h.fix_eq⟩
    · obtain ⟨us, vs, hpre, hsub, hvs, hlast⟩ := h.walk_sub
      refine ⟨us, vs ++ [e], by rw [hpre, List.append_assoc], hsub, ?_, hlast⟩
      intro a ha
      rcases List.mem_append.mp ha with ha | ha
      · exact hvs a ha
      · rw [List.mem_singleton.mp ha]
        exact hp
    · rw [← h.head_eq]
      have hne : hd ++ (ks ++ [P]) ≠ [] := by simp
      rw [List.head?_append_of_ne_nil _ hne, List.head?_append_of_ne_nil _ hne]
    · simpa using h.hdr
    · intro a
      rw [Events.setNext_owner]
      exact howner a
    · intro a ha
      have haP : a ≠ P := fun h => ha (by simp [h])
      rw [Events.setNext_some_next, Function.update_of_ne haP]
      exact h.next a ha
    · rw [linked_append]
      have hmem : ∀ a ∈ (hd ++ (ks ++ [P])).dropLast, a ≠ P := by
        rw [← List.append_assoc, List.dropLast_concat]
        have hnd' := (List.nodup_append.mp hnd).1
        rw [← List.append_assoc] at hnd'
        exact fun a ha => (List.nodup_append.mp hnd').2.2 a ha P (by simp)
      refine ⟨hlink.1.congr_dropLast fun a ha => ?_, ?_, ?_⟩
      · exact Function.update_of_ne (hmem a ha) _ _
      · have htail : Linked t.ev.next post := List.IsChain.tail hlink.2.1
        refine htail.congr fun a ha => ?_
        have haP : a ≠ P := by
          rintro rfl
          exact hdis a (hkeptsub (by simp)) (List.mem_cons_of_mem _ ha)
        exact Function.update_of_ne haP _ _
      · intro a ha b hb
        have haP : P = a := by simpa using ha
        have hne : post ≠ [] := by
          rintro rfl
          exact nomatch hb
        rw [← haP, Events.setNext_some_next, Function.update_self, hnext hne]
        exact hb
    · intro _
      have hne : ks ++ [P] ≠ [] := by simp
      have := h.first_eq (by simp)
      rw [List.head?_append_of_ne_nil _ hne] at this ⊢
      exact this

/-- A memory in which the walk still ends at the list's last event can be repaired. -/
theorem crash (h : GroupScan att m xs p n hd kept pre post t) (hr : Readable m xs)
    (hne : xs ≠ []) {ev : Events} {pl : EtList} (hnext : ev.next = t.ev.next)
    (howner : ∀ a ∈ pre.filter p, ev.owner a = att)
    (hlast : pl.lastevent = (hd ++ kept ++ post).getLast?)
    (hwalk : hd ++ kept ++ post ≠ []) (hcnt : (pl.cnt : ℤ) ≠ m.pl.cnt - n) :
    ReadCrash att xs ⟨ev, pl, readNotes m n⟩ := by
  have hsub : (hd ++ kept ++ post).Sublist xs := by
    rw [h.split]
    exact h.hd_sub.append (List.Sublist.refl post)
  refine .reading _ hwalk ?_ hcnt ?_ (hr.isList.spans.nodup.sublist hsub) hlast hsub.subset ?_
  · rw [h.head_eq]
    exact hr.isList.spans.first_eq hne
  · rw [hnext]
    exact h.linked
  · intro a ha hnot
    refine howner a ?_
    rw [h.split, List.mem_append] at ha
    simp only [List.mem_append, not_or] at hnot
    have hpre := ha.resolve_right hnot.2
    have hk := hnot.1.2
    rw [h.kept_eq, List.mem_filter] at hk
    exact List.mem_filter.mpr ⟨hpre, by simpa [hpre] using hk⟩

/-- The list of the events kept so far and those not looked at. -/
theorem spans (h : GroupScan att m xs p n hd kept pre post t) (hr : Readable m xs)
    {last : Option ℕ} (hlast : kept ++ post ≠ [] → last = (kept ++ post).getLast?) :
    Spans t.ev.next t.pl.firstevent last (kept ++ post) := by
  have hl := h.linked
  rw [List.append_assoc] at hl
  have hsub : (kept ++ post).Sublist xs := by
    rw [h.split]
    exact ((List.sublist_append_right hd kept).trans h.hd_sub).append (List.Sublist.refl post)
  exact ⟨(linked_append.mp hl).2.1, hr.isList.spans.nodup.sublist hsub, h.first_eq, hlast⟩

theorem repaired (h : GroupScan att m xs p n hd kept pre post t) (hr : Readable m xs)
    {pl : EtList} (hfirst : pl.firstevent = t.pl.firstevent)
    (hlast : kept ++ post ≠ [] → pl.lastevent = (kept ++ post).getLast?)
    (hcnt : pl.cnt = (kept ++ post).length) (fix : FixIn) :
    RepairedInput att xs (kept ++ post) ⟨t.ev, pl, fix⟩ := by
  have hsub : kept ++ post ⊆ xs := by
    rw [h.split]
    exact (((List.sublist_append_right hd kept).trans h.hd_sub).append
      (List.Sublist.refl post)).subset
  refine ⟨⟨hcnt, ?_⟩, hsub, fun a ha => ?_, fun a ha hnot => ?_⟩
  · show Spans t.ev.next pl.firstevent pl.lastevent _
    rw [hfirst]
    exact h.spans hr hlast
  · have hnot : a ∉ pre.filter p := by
      intro hf
      obtain ⟨hpre, hp⟩ := List.mem_filter.mp hf
      rcases List.mem_append.mp ha with hk | hk
      · rw [h.kept_eq, List.mem_filter] at hk
        simp [hp] at hk
      · have hnd := hr.isList.spans.nodup
        rw [h.split] at hnd
        exact (List.nodup_append.mp hnd).2.2 a hpre a hk rfl
    show t.ev.owner a = etSys
    rw [h.owner, if_neg hnot]
    exact hr.owned a (hsub ha)
  · show t.ev.owner a = att
    rw [h.owner, if_pos]
    rw [h.split, List.mem_append] at ha
    rw [List.mem_append, not_or] at hnot
    have hpre := ha.resolve_right hnot.2
    have hk := hnot.1
    rw [h.kept_eq, List.mem_filter] at hk
    exact List.mem_filter.mpr ⟨hpre, by simpa [hpre] using hk⟩

end GroupScan

/-- **The two windows of the scan.**  The last event of the list has been taken, and
the list's last pointer does not say so yet, or says that there is no last event
while the count still says that there is one. -/
inductive GroupWindow (att : ℤ) (m : InMem) (xs : List ℕ) (p : ℕ → Bool) (n : ℕ)
    (u : InMem) : Prop
  | unlinked (hd kept : List ℕ) (ne : kept ≠ [])
      (scan : GroupScan att m xs p n hd kept xs [] u) (count : xs.countP p ≤ n)
      (last : ∀ l ∈ xs.getLast?, p l = true)
      (link : ∀ a ∈ kept.getLast?, ∀ l ∈ xs.getLast?, u.ev.next a = m.ev.next l)
      (lastevent : u.pl.lastevent = m.pl.lastevent)
  | emptied (hd : List ℕ) (scan : GroupScan att m xs p n hd [] xs [] u)
      (count : xs.countP p ≤ n) (last : u.pl.lastevent = none)

/-- The end of a scan: `taken` and `kept` are all of the list, and either nothing is
kept or a walk still ends at the list's last event. -/
def GroupEnd (att : ℤ) (m : InMem) (xs : List ℕ) (p : ℕ → Bool) (n : ℕ)
    (taken kept : List ℕ) (u : InMem) : Prop :=
  ∃ hd ks pre post, GroupScan att m xs p n hd ks pre post u ∧ taken = pre.filter p ∧
    kept = ks ++ post ∧ (kept ≠ [] → u.pl.lastevent = (hd ++ ks ++ post).getLast?)

section Scan

variable {att : ℤ} {m t : InMem} {xs hd kept pre post : List ℕ} {p : ℕ → Bool} {n e : ℕ}

theorem unlinkEvent_eq (att : ℤ) (prev : Option ℕ) (e : ℕ) (t : InMem) :
    (unlinkEvent att prev e t).pl.lastevent = t.pl.lastevent ∧
    (unlinkEvent att prev e t).pl.cnt = t.pl.cnt ∧ (unlinkEvent att prev e t).fix = t.fix := by
  unfold unlinkEvent
  split
  · exact ⟨rfl, rfl, rfl⟩
  · exact ⟨rfl, rfl, rfl⟩

/-- The scan at an event of the group. -/
theorem wp_nreadGroupLoop_take {C : InMem → Prop} {Q : List ℕ → InMem → Prop} {group i num : ℕ}
    {prev : Option ℕ} (he : t.ev.inGroup group e = true) :
    wp (nreadGroupLoop att group (i + 1) prev (some e) num) C Q t ↔
      C t ∧ C { t with ev := t.ev.setOwner e att } ∧ C (unlinkEvent att prev e t) ∧
      ∀ u, u = (if t.pl.lastevent = some e then
          { unlinkEvent att prev e t with pl.lastevent := prev }
          else unlinkEvent att prev e t) →
        C u ∧ if num ≤ 1 then Q [e] u else
          wp (nreadGroupLoop att group i prev (u.ev.next e) (num - 1)) C
            (fun r v => C v ∧ Q (e :: r) v) u := by
  conv_lhs => unfold nreadGroupLoop
  simp only [wp_bind, wp_get, wp_ite, wp_store, wp_when, wp_pure, he, if_true]
  unfold unlinkEvent
  by_cases hprev : prev = none
  · by_cases hlast : t.pl.lastevent = some e
    · simp only [hprev, hlast, if_true, forall_eq, Events.setOwner_next]
      split <;> tauto
    · simp only [hprev, hlast, if_true, if_false, forall_eq, Events.setOwner_next]
      split <;> tauto
  · by_cases hlast : t.pl.lastevent = some e
    · simp only [hprev, hlast, if_true, if_false, forall_eq, Events.setOwner_next]
      split <;> tauto
    · simp only [hprev, hlast, if_false, forall_eq, Events.setOwner_next]
      split <;> tauto

/-- The scan at an event of another group. -/
theorem wp_nreadGroupLoop_skip {C : InMem → Prop} {Q : List ℕ → InMem → Prop}
    {group i num : ℕ} {prev : Option ℕ} (he : t.ev.inGroup group e = false) :
    wp (nreadGroupLoop att group (i + 1) prev (some e) num) C Q t ↔
      C t ∧ wp (nreadGroupLoop att group i (some e) (t.ev.next e) num) C Q t := by
  conv_lhs => unfold nreadGroupLoop
  simp only [wp_bind, wp_get, wp_ite, he, if_false, Bool.false_eq_true]

theorem GroupScan.inGroup_eq (h : GroupScan att m xs p n hd kept pre post t) (group a : ℕ) :
    t.ev.inGroup group a = m.ev.inGroup group a := by
  simp [Events.inGroup, h.hdr]

/-- A walk that has events left to look at ends where the list ends. -/
theorem GroupScan.getLast?_eq (h : GroupScan att m xs p n hd kept pre post t) (hne : post ≠ []) :
    (hd ++ kept ++ post).getLast? = xs.getLast? := by
  rw [h.split, List.getLast?_append_of_ne_nil _ hne, List.getLast?_append_of_ne_nil _ hne]

/-- The list's last pointer is no part of what the scan keeps track of. -/
theorem GroupScan.setLast (h : GroupScan att m xs p n hd kept pre post t) (l : Option ℕ) :
    GroupScan att m xs p n hd kept pre post { t with pl.lastevent := l } where
  split := h.split
  kept_eq := h.kept_eq
  walk_sub := h.walk_sub
  hd_eq := h.hd_eq
  head_eq := h.head_eq
  hdr := h.hdr
  owner := h.owner
  next := h.next
  linked := h.linked
  first_eq := h.first_eq
  list_eq := by
    have := h.list_eq
    rw [this]
  fix_eq := h.fix_eq

theorem filter_append_of_pos (hp : p e = true) : (pre ++ [e]).filter p = pre.filter p ++ [e] := by
  rw [List.filter_append, List.filter_singleton, hp]
  rfl

theorem filter_append_of_neg (hp : p e = false) : (pre ++ [e]).filter p = pre.filter p := by
  rw [List.filter_append, List.filter_singleton, hp, cond_false, List.append_nil]

/-- Memories in which the scan can be interrupted at an event it takes. -/
theorem GroupScan.crash_take (h : GroupScan att m xs p n hd kept pre (e :: post) t)
    (hr : Readable m xs) (hn : n ≠ 0) (hxs : xs ≠ []) (hp : p e = true)
    (hpl : t.pl.lastevent = m.pl.lastevent) :
    ReadCrash att xs t ∧ ReadCrash att xs { t with ev := t.ev.setOwner e att } ∧
      (post ≠ [] ∨ kept = [] → ReadCrash att xs (unlinkEvent att kept.getLast? e t)) := by
  have hmlast : m.pl.lastevent = xs.getLast? := hr.isList.spans.last_eq hxs
  have hlast := h.getLast?_eq (List.cons_ne_nil e post)
  have hwalk : hd ++ kept ++ e :: post ≠ [] := by simp
  have hcnt : ∀ {pl : EtList}, pl.cnt = m.pl.cnt → (pl.cnt : ℤ) ≠ m.pl.cnt - n := by
    intro pl hpl
    rw [hpl]
    omega
  have htcnt : t.pl.cnt = m.pl.cnt := by rw [h.list_eq]
  obtain ⟨hulast, hucnt, hufix⟩ := unlinkEvent_eq att kept.getLast? e t
  have howner : ∀ a ∈ pre.filter p, t.ev.owner a = att := fun a ha => by rw [h.owner, if_pos ha]
  have c₁ : ReadCrash att xs ⟨t.ev, t.pl, readNotes m n⟩ :=
    h.crash hr hxs rfl howner (by rw [hpl, hmlast, hlast]) hwalk (hcnt htcnt)
  have c₂ : ReadCrash att xs ⟨t.ev.setOwner e att, t.pl, readNotes m n⟩ := by
    refine h.crash hr hxs rfl (fun a ha => ?_) (by rw [hpl, hmlast, hlast]) hwalk (hcnt htcnt)
    rw [Events.setOwner_owner, Function.update_apply]
    split
    · rfl
    · exact howner a ha
  rw [← h.fix_eq] at c₁ c₂
  refine ⟨c₁, c₂, fun hcase => ?_⟩
  have hscan := h.take hr.isList.spans.nodup hp
  have hlast' : (unlinkEvent att kept.getLast? e t).pl.lastevent =
      ((if kept = [] then hd ++ [e] else hd) ++ kept ++ post).getLast? := by
    rw [hulast, hpl, hmlast, ← hlast]
    by_cases hne : post = []
    · rw [hcase.resolve_left (not_not.mpr hne), hne, if_pos rfl]
      simp
    · rw [← List.singleton_append, ← List.append_assoc, List.getLast?_append_of_ne_nil _ hne,
        List.getLast?_append_of_ne_nil _ hne]
  have hwalk' : (if kept = [] then hd ++ [e] else hd) ++ kept ++ post ≠ [] := by
    intro hnil
    rw [hnil, hulast, hpl, hmlast] at hlast'
    exact hxs (List.getLast?_eq_none_iff.mp hlast')
  have c₃ := hscan.crash hr hxs rfl (fun a ha => by rw [hscan.owner, if_pos ha]) hlast' hwalk'
    (hcnt (hucnt.trans htcnt))
  rwa [← h.fix_eq, ← hufix] at c₃

theorem GroupScan.notMem_kept (h : GroupScan att m xs p n hd kept pre post t)
    (hp : p e = true) : e ∉ kept := by
  rw [h.kept_eq]
  exact fun hm => by simpa [hp] using List.of_mem_filter hm

/-- The list's last pointer is not at an event that has others after it. -/
theorem GroupScan.last_ne (h : GroupScan att m xs p n hd kept pre (e :: post) t)
    (hr : Readable m xs) (hne : post ≠ []) (hpl : t.pl.lastevent = m.pl.lastevent) :
    t.pl.lastevent ≠ some e := by
  have hnd := hr.isList.spans.nodup
  have hmlast : m.pl.lastevent = xs.getLast? := hr.isList.spans.last_eq (by simp [h.split])
  rw [h.split] at hnd
  rw [hpl, hmlast, ← h.getLast?_eq (List.cons_ne_nil e _), ← List.singleton_append,
    ← List.append_assoc, List.getLast?_append_of_ne_nil _ hne]
  intro hl
  exact (List.nodup_cons.mp (List.nodup_append.mp hnd).2.1).1 (List.mem_of_getLast? hl)

/-- Taking an event leaves its own link, which leads to the event looked at next. -/
theorem GroupScan.unlink_next (h : GroupScan att m xs p n hd kept pre (e :: post) t)
    (hr : Readable m xs) (hp : p e = true) (hne : post ≠ []) :
    (unlinkEvent att kept.getLast? e t).ev.next e = post.head? := by
  have hek := h.notMem_kept hp
  rw [(h.take hr.isList.spans.nodup hp).next e hek, ← h.next e hek]
  exact GroupScan.next_eq_head? h.linked hne

/-- **The list's last event is taken.**  Its unlinking and the store of the last
pointer are the two windows: the one if an event is kept, the other if none is. -/
theorem GroupScan.takeLast (h : GroupScan att m xs p n hd kept pre [e] t) (hr : Readable m xs)
    (hp : p e = true) (hsum : (pre.filter p).length + 1 ≤ n)
    (hpl : t.pl.lastevent = m.pl.lastevent) :
    (kept ≠ [] → GroupWindow att m xs p n (unlinkEvent att kept.getLast? e t)) ∧
    (kept ≠ [] → ReadCrash att xs
      { unlinkEvent att kept.getLast? e t with pl.lastevent := kept.getLast? }) ∧
    (kept = [] → GroupWindow att m xs p n
      { unlinkEvent att kept.getLast? e t with pl.lastevent := kept.getLast? }) ∧
    GroupEnd att m xs p n (pre.filter p ++ [e]) kept
      { unlinkEvent att kept.getLast? e t with pl.lastevent := kept.getLast? } := by
  have hscan := h.take hr.isList.spans.nodup hp
  have hsplit : xs = pre ++ [e] := h.split
  have hlast : xs.getLast? = some e := by rw [hsplit, List.getLast?_concat]
  have hxs : xs ≠ [] := by simp [hsplit]
  rw [← hsplit] at hscan
  have hscan' := hscan.setLast kept.getLast?
  have hfilter : pre.filter p ++ [e] = xs.filter p := by rw [hsplit, filter_append_of_pos hp]
  have hcount : xs.countP p ≤ n := by
    rw [List.countP_eq_length_filter, ← hfilter, List.length_append]
    exact hsum
  obtain ⟨hulast, hucnt, hufix⟩ := unlinkEvent_eq att kept.getLast? e t
  have htcnt : t.pl.cnt = m.pl.cnt := by rw [h.list_eq]
  have hend : kept ≠ [] → kept.getLast? =
      ((if kept = [] then hd ++ [e] else hd) ++ kept ++ []).getLast? := by
    intro hk
    rw [List.append_nil, List.getLast?_append_of_ne_nil _ hk]
  refine ⟨fun hk => ?_, fun hk => ?_, fun hk => ?_, ?_⟩
  · refine .unlinked _ kept hk hscan hcount (fun l hl => ?_) (fun a ha l hl => ?_)
      (hulast.trans hpl)
    · obtain rfl : e = l := Option.some.inj (hlast.symm.trans hl)
      exact hp
    · obtain rfl : e = l := Option.some.inj (hlast.symm.trans hl)
      unfold unlinkEvent
      rw [ha, if_neg (Option.some_ne_none a), Events.setNext_some_next, Function.update_self]
      exact h.next e (h.notMem_kept hp)
  · have hcnt : ((unlinkEvent att kept.getLast? e t).pl.cnt : ℤ) ≠ m.pl.cnt - n := by
      rw [hucnt, htcnt]
      omega
    have hc : ReadCrash att xs ⟨(unlinkEvent att kept.getLast? e t).ev,
        { (unlinkEvent att kept.getLast? e t).pl with lastevent := kept.getLast? },
        readNotes m n⟩ :=
      hscan'.crash hr hxs rfl (fun a ha => by rw [hscan'.owner, if_pos ha]) (hend hk)
        (by simp [hk]) hcnt
    rwa [← h.fix_eq, ← hufix] at hc
  · subst hk
    exact .emptied _ hscan' hcount rfl
  · exact ⟨_, kept, xs, [], hscan', hfilter, (List.append_nil kept).symm, hend⟩

/-- **The scan, store by store.** -/
theorem wp_nreadGroupLoop {group num : ℕ} {pev : Option ℕ} (hr : Readable m xs) (hn : n ≠ 0)
    (hxs : xs ≠ []) (hp : p = m.ev.inGroup group)
    (h : GroupScan att m xs p n hd kept pre post t) (hnum : num ≠ 0)
    (hsum : (pre.filter p).length + num ≤ n) (hpev : post ≠ [] → pev = post.head?)
    (hpl : t.pl.lastevent = m.pl.lastevent)
    (hlast : (hd ++ kept ++ post).getLast? = xs.getLast?) (hcrash : ReadCrash att xs t) :
    wp (nreadGroupLoop att group post.length kept.getLast? pev num)
      (fun u => ReadCrash att xs u ∨ GroupWindow att m xs p n u)
      (fun r u => r = (takeWhere p num post).1 ∧
        GroupEnd att m xs p n (pre.filter p ++ r) (kept ++ (takeWhere p num post).2) u) t := by
  have hmlast : m.pl.lastevent = xs.getLast? := hr.isList.spans.last_eq hxs
  induction post generalizing hd kept pre t pev num with
  | nil =>
      have hwhere : takeWhere p num [] = ([], []) := by cases num <;> rfl
      have hend : GroupEnd att m xs p n (pre.filter p ++ []) (kept ++ []) t :=
        ⟨hd, kept, pre, [], h, by simp, rfl, fun _ => by rw [hpl, hmlast, hlast]⟩
      rw [hwhere, List.length_nil, nreadGroupLoop, wp_pure]
      exact ⟨Or.inl hcrash, rfl, hend⟩
  | cons e post ih =>
      rw [hpev (List.cons_ne_nil e post), List.head?_cons, List.length_cons]
      obtain ⟨num, rfl⟩ := Nat.exists_eq_succ_of_ne_zero hnum
      have hnext : post ≠ [] → t.ev.next e = post.head? := GroupScan.next_eq_head? h.linked
      cases hpe : p e with
      | false =>
          have hskip := h.skip hpe
          have hsum' : ((pre ++ [e]).filter p).length + (num + 1) ≤ n := by
            rwa [filter_append_of_neg hpe]
          have hloop := ih hskip hnum hsum' hnext hpl (by simpa using hlast) hcrash
          have hwhere : takeWhere p (num + 1) (e :: post) =
              ((takeWhere p (num + 1) post).1, e :: (takeWhere p (num + 1) post).2) := by
            rw [takeWhere, hpe]
            rfl
          rw [wp_nreadGroupLoop_skip (by rw [h.inGroup_eq, ← hp, hpe]), hwhere]
          rw [List.getLast?_concat, filter_append_of_neg hpe] at hloop
          refine ⟨Or.inl hcrash, ?_⟩
          simpa only [List.append_assoc, List.singleton_append] using hloop
      | true =>
          obtain ⟨-, c₁, c₂⟩ := h.crash_take hr hn hxs hpe hpl
          have hwhere : takeWhere p (num + 1) (e :: post) =
              (e :: (takeWhere p num post).1, (takeWhere p num post).2) := by
            rw [takeWhere, hpe]
            rfl
          have hsum' : ((pre ++ [e]).filter p).length + num ≤ n := by
            rw [filter_append_of_pos hpe, List.length_append, List.length_singleton]
            omega
          obtain ⟨hulast, -, -⟩ := unlinkEvent_eq att kept.getLast? e t
          rw [wp_nreadGroupLoop_take (by rw [h.inGroup_eq, ← hp, hpe]), hwhere]
          refine ⟨Or.inl hcrash, Or.inl c₁, ?_⟩
          cases post with
          | nil =>
              obtain ⟨w₁, w₂, w₃, hend⟩ := h.takeLast hr hpe (by omega) hpl
              have htlast : t.pl.lastevent = some e := by
                rw [hpl, hmlast, h.split, List.getLast?_concat]
              have hwhere' : takeWhere p num [] = ([], []) := by cases num <;> rfl
              have hdone : GroupEnd att m xs p n (pre.filter p ++ [e]) (kept ++ [])
                  { unlinkEvent att kept.getLast? e t with pl.lastevent := kept.getLast? } := by
                rwa [List.append_nil]
              rw [if_pos htlast, hwhere']
              refine ⟨?_, ?_⟩
              · by_cases hk : kept = []
                · exact Or.inl (c₂ (Or.inr hk))
                · exact Or.inr (w₁ hk)
              · rintro u rfl
                have hcu : ReadCrash att xs
                    { unlinkEvent att kept.getLast? e t with pl.lastevent := kept.getLast? } ∨
                    GroupWindow att m xs p n
                      { unlinkEvent att kept.getLast? e t with pl.lastevent := kept.getLast? } := by
                  by_cases hk : kept = []
                  · exact Or.inr (w₃ hk)
                  · exact Or.inl (w₂ hk)
                refine ⟨hcu, ?_⟩
                split
                · exact ⟨rfl, hdone⟩
                · rw [List.length_nil, nreadGroupLoop, wp_pure]
                  exact ⟨hcu, hcu, rfl, hdone⟩
          | cons b post =>
              have hne := List.cons_ne_nil b post
              have hscan := h.take hr.isList.spans.nodup hpe
              have hcu := c₂ (Or.inl hne)
              have htlast := h.last_ne hr hne hpl
              rw [if_neg htlast]
              refine ⟨Or.inl hcu, ?_⟩
              rintro u rfl
              refine ⟨Or.inl hcu, ?_⟩
              split
              case isTrue hle =>
                obtain rfl : num = 0 := by omega
                rw [takeWhere_zero]
                refine ⟨rfl, _, kept, pre ++ [e], b :: post, hscan, ?_, rfl, fun _ => ?_⟩
                · exact (filter_append_of_pos hpe).symm
                · rw [hulast, hpl, hmlast, hscan.getLast?_eq hne]
              case isFalse hgt =>
                have hunext := h.unlink_next hr hpe hne
                have hloop := ih hscan (by omega : num ≠ 0) hsum' (fun _ => hunext)
                  (hulast.trans hpl) (hscan.getLast?_eq hne) hcu
                rw [filter_append_of_pos hpe, hunext] at hloop
                rw [hunext, Nat.succ_sub_one]
                refine wp_mono hloop (fun _ h => h) ?_
                rintro r v hv ⟨hr, hend⟩
                refine ⟨hv, congrArg (e :: ·) hr, ?_⟩
                rwa [List.append_assoc] at hend

/-- **`et_station_nread_group`.** -/
theorem wp_stationNreadGroup {num group : ℕ} (hr : Readable m xs) (hxs : xs ≠ [])
    (hnum : num ≠ 0) :
    wp (stationNreadGroup att num group)
      (fun u => ReadCrash att xs u ∨
        GroupWindow att m xs (m.ev.inGroup group) (min num xs.length) u)
      (fun r u => r = (takeWhere (m.ev.inGroup group) (min num xs.length) xs).1 ∧
        ReadDone att m xs (takeWhere (m.ev.inGroup group) (min num xs.length) xs).1
          (takeWhere (m.ev.inGroup group) (min num xs.length) xs).2 u) m := by
  have hs := hr.isList.spans
  have hcnt := hr.isList.cnt_eq
  have hlen : xs.length ≠ 0 := fun hz => hxs (List.length_eq_zero_iff.mp hz)
  unfold stationNreadGroup
  simp only [wp_bind, wp_get, wp_store, wp_pure]
  refine ⟨Or.inl (hr.crash m.fix hr.closed), ?_⟩
  rw [hcnt]
  set n := min num xs.length with hn
  set p := m.ev.inGroup group with hp
  have hn0 : n ≠ 0 := by omega
  refine wp_mono (wp_noteRead hr hxs hn0) (fun _ h => Or.inl h) ?_
  rintro - t ht rfl
  have hstart : GroupScan att m xs p n [] [] [] xs { m with fix := readNotes m n } := .start hr
  have hloop := wp_nreadGroupLoop hr hn0 hxs hp hstart hn0 (Nat.zero_add n).le hs.first_eq rfl rfl ht
  refine wp_mono hloop (fun _ h => h) ?_
  rintro r u hu ⟨rfl, hd, ks, pre, post, hscan, htaken, hkept, hlast⟩
  rw [List.filter_nil, List.nil_append] at htaken
  rw [List.nil_append] at hkept hlast
  set taken := (takeWhere p n xs).1 with htk
  set kept := (takeWhere p n xs).2 with hkp
  have hperm : taken.length + kept.length = xs.length := by
    rw [← List.length_append]
    exact takeWhere_perm.length_eq
  have htn : taken.length ≤ n := length_takeWhere_le p n xs
  have hucnt : u.pl.cnt = xs.length := by rw [hscan.list_eq, ← hcnt]
  have hulast : kept ≠ [] → u.pl.lastevent = (ks ++ post).getLast? := by
    intro hk
    rw [hlast hk, List.append_assoc, List.getLast?_append_of_ne_nil _ (hkept ▸ hk)]
  -- the list with its new count
  have hrep : ∀ fix, RepairedInput att xs kept
      ⟨u.ev, { u.pl with cnt := u.pl.cnt - taken.length }, fix⟩ := by
    intro fix
    rw [hkept] at hulast ⊢
    refine hscan.repaired hr ?_ ?_ ?_ fix
    · rfl
    · exact hulast
    · rw [← hkept]
      show u.pl.cnt - taken.length = kept.length
      omega
  have hcrash : ReadCrash att xs { u with pl.cnt := u.pl.cnt - taken.length } := by
    rw [show u.fix = readNotes m n from hscan.fix_eq]
    by_cases hfull : taken.length = n
    · refine .whole kept (hrep _) (Or.inr ?_)
      show ((u.pl.cnt - taken.length : ℕ) : ℤ) = m.pl.cnt - n
      omega
    · have hk : kept ≠ [] := by
        rintro hk
        rw [hk, List.length_nil] at hperm
        omega
      refine hscan.crash hr hxs rfl (fun a ha => by rw [hscan.owner, if_pos ha]) (hlast hk) ?_ ?_
      · rw [List.append_assoc, ← hkept]
        exact List.append_ne_nil_of_right_ne_nil hd hk
      · show ((u.pl.cnt - taken.length : ℕ) : ℤ) ≠ m.pl.cnt - n
        omega
  have hclosed : ReadCrash att xs ⟨u.ev, { u.pl with cnt := u.pl.cnt - taken.length },
      { u.fix with first := none }⟩ := .whole kept (hrep _) (Or.inl rfl)
  refine ⟨hu, Or.inl hcrash, Or.inl hcrash, Or.inl hclosed, Or.inl hclosed, rfl, ?_⟩
  refine ⟨(hrep _).isList, hscan.hdr, fun a ha => hscan.next a fun hk => ha ?_, fun a => ?_, ?_,
    ?_, rfl⟩
  · rw [hscan.split]
    rw [hscan.kept_eq] at hk
    exact List.mem_append_left _ (List.mem_of_mem_filter hk)
  · rw [htaken]
    exact hscan.owner a
  · show u.pl.lasthigh = _ ∧ u.pl.eventsTry = _ ∧ u.pl.eventsIn = _ ∧ u.pl.eventsOut = _
    rw [hscan.list_eq]
    exact ⟨rfl, rfl, rfl, rfl⟩
  · show u.fix.start = m.fix.start
    rw [hscan.fix_eq]
    rfl

end Scan

/-! ## The windows -/

section Window

variable {att : ℤ} {m t u : InMem} {xs hd kept pre post : List ℕ} {p : ℕ → Bool} {n : ℕ}

/-- **A scan that takes the last event passes through a window.** -/
theorem exists_window {C : InMem → Prop} {Q : List ℕ → InMem → Prop} {group num : ℕ}
    (hr : Readable m xs) (hp : p = m.ev.inGroup group)
    (h : GroupScan att m xs p n hd kept pre post t) (hne : post ≠ [])
    (hsum : (pre.filter p).length + num ≤ n) (hcount : post.countP p ≤ num)
    (hlast : ∀ l ∈ post.getLast?, p l = true) (hpl : t.pl.lastevent = m.pl.lastevent)
    (hwp : wp (nreadGroupLoop att group post.length kept.getLast? post.head? num) C Q t) :
    ∃ u, C u ∧ GroupWindow att m xs p n u := by
  induction post generalizing hd kept pre t num Q with
  | nil => exact absurd rfl hne
  | cons e post ih =>
      have hnext : post ≠ [] → t.ev.next e = post.head? := GroupScan.next_eq_head? h.linked
      rw [List.head?_cons, List.length_cons] at hwp
      cases hpe : p e with
      | false =>
          have hpost : post ≠ [] := by
            rintro rfl
            have := hlast e rfl
            simp [hpe] at this
          rw [wp_nreadGroupLoop_skip (by rw [h.inGroup_eq, ← hp, hpe]), hnext hpost] at hwp
          have hsum' : ((pre ++ [e]).filter p).length + num ≤ n := by
            rwa [filter_append_of_neg hpe]
          have hcount' : post.countP p ≤ num := by
            rwa [List.countP_cons_of_neg (by simp [hpe])] at hcount
          have hlast' : ∀ l ∈ post.getLast?, p l = true := fun l hl =>
            hlast l (by rwa [← List.singleton_append, List.getLast?_append_of_ne_nil _ hpost])
          have hwp' : wp (nreadGroupLoop att group post.length (kept ++ [e]).getLast?
              post.head? num) C Q t := by
            rw [List.getLast?_concat]
            exact hwp.2
          exact ih (h.skip hpe) hpost hsum' hcount' hlast' hpl hwp'
      | true =>
          rw [wp_nreadGroupLoop_take (by rw [h.inGroup_eq, ← hp, hpe])] at hwp
          obtain ⟨-, -, hcu, hrest⟩ := hwp
          have hmlast : m.pl.lastevent = xs.getLast? :=
            hr.isList.spans.last_eq (by simp [h.split])
          rw [List.countP_cons_of_pos hpe] at hcount
          cases post with
          | nil =>
              obtain ⟨w₁, -, w₃, -⟩ := h.takeLast hr hpe (by omega) hpl
              by_cases hk : kept = []
              · have htlast : t.pl.lastevent = some e := by
                  rw [hpl, hmlast, h.split, List.getLast?_concat]
                exact ⟨_, (hrest _ (if_pos htlast).symm).1, w₃ hk⟩
              · exact ⟨_, hcu, w₁ hk⟩
          | cons b post =>
              have hpost := List.cons_ne_nil b post
              have hscan := h.take hr.isList.spans.nodup hpe
              have htlast := h.last_ne hr hpost hpl
              have hlast' : ∀ l ∈ (b :: post).getLast?, p l = true := fun l hl =>
                hlast l (by rwa [← List.singleton_append, List.getLast?_append_of_ne_nil _ hpost])
              -- the last event of the group is still to come
              have hpos : 0 < (b :: post).countP p := by
                rw [List.countP_pos_iff]
                exact ⟨_, List.getLast_mem hpost, hlast' _ (List.getLast?_eq_some_getLast hpost)⟩
              have hunext := h.unlink_next hr hpe hpost
              have hsum' : ((pre ++ [e]).filter p).length + (num - 1) ≤ n := by
                rw [filter_append_of_pos hpe, List.length_append, List.length_singleton]
                omega
              have hrest' := (hrest _ (if_neg htlast).symm).2
              rw [if_neg (by omega), hunext] at hrest'
              obtain ⟨hulast, -, -⟩ := unlinkEvent_eq att kept.getLast? e t
              exact ih hscan hpost hsum' (by omega) hlast' (hulast.trans hpl) hrest'

/-- When the last event of the list is taken and another is kept, the events after
the last one kept are those at the end of the list that are in the group. -/
theorem GroupScan.tail (h : GroupScan att m xs p n hd kept xs [] u) (hk : kept ≠ []) :
    ∃ us P, xs = us ++ [P] ++ xs.rtakeWhile p ∧ (hd ++ kept).Sublist (us ++ [P]) ∧
      kept.getLast? = some P ∧ p P = false := by
  obtain ⟨vs, ws, hsplit, hsub, hws, hlast⟩ := h.walk_sub
  obtain ⟨P, hP⟩ : ∃ P, kept.getLast? = some P :=
    ⟨kept.getLast hk, List.getLast?_eq_some_getLast hk⟩
  have hpP : p P = false := by
    have hmem := List.mem_of_getLast? hP
    rw [h.kept_eq, List.mem_filter] at hmem
    simpa using hmem.2
  obtain ⟨us, rfl⟩ : ∃ us, vs = us ++ [P] := by
    have hv : vs.getLast? = some P := (hlast hk).trans hP
    have hne : vs ≠ [] := by rintro rfl; exact nomatch hv
    refine ⟨vs.dropLast, ?_⟩
    have := List.dropLast_append_getLast hne
    rw [List.getLast?_eq_some_getLast hne] at hv
    rw [← Option.some.inj hv, this]
  have htail : xs.rtakeWhile p = ws := by
    have hrev : ∀ a ∈ ws.reverse, p a = true := fun a ha => hws a (List.mem_reverse.mp ha)
    rw [hsplit, List.rtakeWhile, List.reverse_append, List.takeWhile_append_of_pos hrev,
      List.reverse_concat, List.takeWhile_cons_of_neg (by simp [hpP]), List.append_nil,
      List.reverse_reverse]
  exact ⟨us, P, by rw [htail]; exact hsplit, hsub, hP, hpP⟩

/-- The first element without `p`. -/
theorem exists_first_not (p : ℕ → Bool) {zs : List ℕ} {a : ℕ} (ha : a ∈ zs)
    (hp : p a = false) :
    ∃ cs k ds, zs = cs ++ k :: ds ∧ (∀ c ∈ cs, p c = true) ∧ p k = false := by
  induction zs with
  | nil => exact absurd ha List.not_mem_nil
  | cons z zs ih =>
      cases hz : p z with
      | false => exact ⟨[], z, zs, rfl, by simp, hz⟩
      | true =>
          have hmem : a ∈ zs := by
            rcases List.mem_cons.mp ha with rfl | hmem
            · exact absurd hp (by simp [hz])
            · exact hmem
          obtain ⟨cs, k, ds, rfl, hcs, hk⟩ := ih hmem
          refine ⟨z :: cs, k, ds, rfl, ?_, hk⟩
          intro c hc
          rcases List.mem_cons.mp hc with rfl | hc
          · exact hz
          · exact hcs c hc

/-- In the second window the repair does not stop: it looks for a null pointer. -/
theorem not_recovers_of_emptied (hr : Readable m xs) (hxs : xs ≠ []) (hn : n ≠ 0)
    (h : GroupScan att m xs p n hd kept pre post u) (hlast : u.pl.lastevent = none) :
    ¬ InputRecovers att xs u := by
  intro hrec
  obtain ⟨x, ys, rfl⟩ := List.exists_cons_of_ne_nil hxs
  have hfirst : u.fix.first = some x := by
    rw [h.fix_eq]
    exact hr.isList.spans.first_eq hxs
  have hcnt : (u.pl.cnt : ℤ) ≠ u.fix.cnt - u.fix.num := by
    rw [h.fix_eq, h.list_eq]
    show (m.pl.cnt : ℤ) ≠ m.pl.cnt - n
    omega
  obtain ⟨_, _, _, _, _, _, _, hne⟩ := hrec.found hfirst hcnt
  exact hne hlast

/-- In the first window the last event kept has taken over the link of the list's last
event.  The repair is right exactly if this left-over link leads to one of the
events after the last one kept. -/
theorem recovers_iff_of_unlinked (hr : Readable m xs) (hn : n ≠ 0) (hk : kept ≠ [])
    (h : GroupScan att m xs p n hd kept xs [] u) (hpl : u.pl.lastevent = m.pl.lastevent)
    (hplast : ∀ l ∈ xs.getLast?, p l = true)
    (hlink : ∀ a ∈ kept.getLast?, ∀ l ∈ xs.getLast?, u.ev.next a = m.ev.next l) :
    InputRecovers att xs u ↔
      ∃ l ∈ xs.getLast?, ∃ s ∈ xs.rtakeWhile p, m.ev.next l = some s := by
  obtain ⟨us, P, hsplit, hsub, hP, hpP⟩ := h.tail hk
  set tl := xs.rtakeWhile p with htl
  have hs := hr.isList.spans
  have hnd := hs.nodup
  have hxs : xs ≠ [] := by
    rw [hsplit]
    simp
  obtain ⟨L, hL⟩ : ∃ L, xs.getLast? = some L :=
    ⟨xs.getLast hxs, List.getLast?_eq_some_getLast hxs⟩
  have hpL := hplast L hL
  have hnext : u.ev.next P = m.ev.next L := hlink P hP L hL
  have htlne : tl ≠ [] := by
    intro hnil
    rw [hsplit, hnil, List.append_nil, List.getLast?_concat] at hL
    rw [Option.some.inj hL, hpL] at hpP
    exact nomatch hpP
  have hLtl : tl.getLast? = some L := by
    rw [← hL]
    conv_rhs => rw [hsplit, List.getLast?_append_of_ne_nil _ htlne]
  have hlinked := h.linked
  rw [List.append_nil] at hlinked
  have hRlast : (hd ++ kept).getLast? = some P := by
    rw [List.getLast?_append_of_ne_nil _ hk, hP]
  have hdis : ∀ a ∈ hd ++ kept, a ∉ tl := by
    rw [hsplit] at hnd
    exact fun a ha hb => (List.nodup_append.mp hnd).2.2 a (hsub.subset ha) a hb rfl
  have hfirst : u.fix.first = (hd ++ kept).head? := by
    have hhead := h.head_eq
    rw [List.append_nil] at hhead
    rw [h.fix_eq, hhead]
    exact hs.first_eq hxs
  have hcnt : (u.pl.cnt : ℤ) ≠ u.fix.cnt - u.fix.num := by
    rw [h.fix_eq, h.list_eq]
    show (m.pl.cnt : ℤ) ≠ m.pl.cnt - n
    omega
  have hlast : u.pl.lastevent = some L := by rw [hpl, hs.last_eq hxs, hL]
  -- the links of the events taken are as they were
  have hold : ∀ {zs : List ℕ}, Linked m.ev.next zs → (∀ a ∈ zs.dropLast, p a = true) →
      Linked u.ev.next zs := by
    intro zs hz hpz
    refine hz.congr_dropLast fun a ha => h.next a ?_
    rw [h.kept_eq]
    exact fun hm => by simpa [hpz a ha] using List.of_mem_filter hm
  have hptl : ∀ a ∈ tl, p a = true := fun a ha => List.mem_rtakeWhile_imp ha
  have hml : Linked m.ev.next (us ++ [P] ++ tl) := hsplit ▸ hs.linked
  constructor
  · intro hrec
    obtain ⟨x, hx⟩ : ∃ x, (hd ++ kept).head? = some x :=
      ⟨_, List.head?_eq_some_head (List.append_ne_nil_of_right_ne_nil hd hk)⟩
    obtain ⟨ys, -, hyl, hyd, hyh, hyL, hysub, -⟩ := hrec.found (hfirst.trans hx) hcnt
    rw [hlast] at hyL
    have hLR : L ∉ hd ++ kept := fun hm => hdis L hm (List.mem_of_getLast? hLtl)
    have hhead : (hd ++ kept).head? = ys.head? := hx.trans hyh.symm
    -- the walk of the repair goes on where the walk of the scan ends
    obtain ⟨zs, rfl⟩ : hd ++ kept <+: ys := by
      rcases Nat.le_total (hd ++ kept).length ys.length with hle | hle
      · exact hlinked.prefix_of_length_le hyl hhead hle
      · have := hyl.prefix_of_length_le hlinked hhead.symm hle
        exact absurd (this.subset (List.mem_of_getLast? hyL)) hLR
    have hzne : zs ≠ [] := by
      rintro rfl
      rw [List.append_nil] at hyL
      exact hLR (List.mem_of_getLast? hyL)
    obtain ⟨s, zs, rfl⟩ := List.exists_cons_of_ne_nil hzne
    rw [linked_append] at hyl
    have hPs : u.ev.next P = some s := hyl.2.2 P hRlast s rfl
    refine ⟨L, hL, s, ?_, hnext.symm.trans hPs⟩
    by_contra hstl
    have hsR : s ∉ hd ++ kept := fun hm =>
      (List.nodup_append.mp hyd).2.2 s hm s (by simp) rfl
    have hkeep : ∀ a ∈ xs, p a = false → a ∈ hd ++ kept := by
      intro a ha hpa
      rw [List.mem_append, h.kept_eq, List.mem_filter]
      exact Or.inr ⟨ha, by simp [hpa]⟩
    have hsxs : s ∈ xs := hysub (by simp)
    have hsp : p s = true := by
      by_contra hps
      exact hsR (hkeep s hsxs (by simpa using hps))
    -- so `s` is an event taken between two kept ones, and its links lead to a kept one
    have hsus : s ∈ us := by
      rw [hsplit, List.mem_append, List.mem_append, List.mem_singleton] at hsxs
      rcases hsxs with (hm | rfl) | hm
      · exact hm
      · exact absurd hsp (by simp [hpP])
      · exact absurd hm hstl
    obtain ⟨as, bs, rfl⟩ := List.append_of_mem hsus
    obtain ⟨cs, k, ds, hcsk, hcs, hkp⟩ := exists_first_not p
      (show P ∈ bs ++ [P] by simp) hpP
    have hxs' : xs = as ++ ((s :: cs ++ [k]) ++ (ds ++ tl)) := by
      rw [hsplit, List.append_assoc as, List.cons_append, hcsk]
      simp
    have hZ : Linked u.ev.next (s :: cs ++ [k]) := by
      have hm := hs.linked
      rw [hxs'] at hm
      refine hold (linked_append.mp (linked_append.mp hm).2.1).1 fun a ha => ?_
      rw [List.dropLast_concat] at ha
      rcases List.mem_cons.mp ha with rfl | ha
      · exact hsp
      · exact hcs a ha
    rcases Nat.le_total (s :: cs ++ [k]).length (s :: zs).length with hle | hle
    · have hpre := hZ.prefix_of_length_le hyl.2.1 rfl hle
      have hkz : k ∈ s :: zs := hpre.subset (by simp)
      have hkR : k ∈ hd ++ kept := hkeep k (by rw [hxs']; simp) hkp
      exact (List.nodup_append.mp hyd).2.2 k hkR k hkz rfl
    · have hpre := hyl.2.1.prefix_of_length_le hZ rfl hle
      rw [List.getLast?_append_of_ne_nil _ (List.cons_ne_nil s zs)] at hyL
      have hLZ : L ∈ s :: cs ++ [k] := hpre.subset (List.mem_of_getLast? hyL)
      rw [hxs'] at hnd
      refine (List.nodup_append.mp (List.nodup_append.mp hnd).2.1).2.2 L hLZ L ?_ rfl
      exact List.mem_append_right _ (List.mem_of_getLast? hLtl)
  · rintro ⟨l, hl, s, hstl, hls⟩
    obtain rfl : L = l := Option.some.inj (hL.symm.trans hl)
    obtain ⟨as, bs, hasbs⟩ := List.append_of_mem hstl
    have hwalk : (hd ++ kept ++ s :: bs).Sublist xs := by
      rw [hsplit, hasbs]
      exact hsub.append (List.sublist_append_right as (s :: bs))
    refine ReadCrash.recovers (.reading (hd ++ kept ++ s :: bs) (by simp) ?_ hcnt ?_
      (hnd.sublist hwalk) ?_ hwalk.subset ?_)
    · rw [hfirst, List.head?_append_of_ne_nil _ (List.append_ne_nil_of_right_ne_nil hd hk)]
    · rw [linked_append]
      refine ⟨hlinked, ?_, ?_⟩
      · rw [hasbs, ← List.append_assoc] at hml
        refine hold (linked_append.mp hml).2.1 fun a ha => hptl a ?_
        rw [hasbs]
        exact List.mem_append_right _ (List.mem_of_mem_dropLast ha)
      · intro a ha b hb
        obtain rfl : P = a := Option.some.inj (hRlast.symm.trans ha)
        rw [hnext, hls]
        exact hb
    · rw [hlast, List.getLast?_append_of_ne_nil _ (List.cons_ne_nil s bs), ← hLtl, hasbs,
        List.getLast?_append_of_ne_nil _ (List.cons_ne_nil s bs)]
    · intro a ha hnot
      rw [h.owner, if_pos]
      simp only [List.mem_append, not_or] at hnot
      have hk' := hnot.1.2
      rw [h.kept_eq, List.mem_filter] at hk'
      exact List.mem_filter.mpr ⟨ha, by simpa [ha] using hk'⟩

end Window

/-! ## The crash repair of an input list -/

/-- **A group read that can be repaired wherever it is interrupted**: it does not take
the last event of the list, which is in another group or has `num` events of the
group before it; or it keeps an event, and the link left over in the last event leads
to one of the events after the last one kept. -/
def GroupReadSafe (m : InMem) (xs : List ℕ) (num group : ℕ) : Prop :=
  (∃ l ∈ xs.getLast?, m.ev.inGroup group l = false) ∨
  num < xs.countP (m.ev.inGroup group) ∨
  (∃ e ∈ xs, m.ev.inGroup group e = false) ∧
    ∃ l ∈ xs.getLast?, ∃ s ∈ xs.rtakeWhile (m.ev.inGroup group), m.ev.next l = some s

theorem groupRead_recovers_iff {att : ℤ} {m : InMem} {xs : List ℕ} {num group : ℕ}
    (hr : Readable m xs) (hxs : xs ≠ []) (hnum : num ≠ 0) :
    (∀ t ∈ crashStates (stationNreadGroup att num group) m, InputRecovers att xs t) ↔
      GroupReadSafe m xs num group := by
  set p := m.ev.inGroup group with hp
  have hlen : xs.length ≠ 0 := fun hz => hxs (List.length_eq_zero_iff.mp hz)
  have hn0 : min num xs.length ≠ 0 := by omega
  obtain ⟨L, hL⟩ : ∃ L, xs.getLast? = some L := ⟨_, List.getLast?_eq_some_getLast hxs⟩
  have hkept : ∀ {hd kept : List ℕ} {u : InMem} {n : ℕ},
      GroupScan att m xs p n hd kept xs [] u → (kept ≠ [] ↔ ∃ e ∈ xs, p e = false) := by
    intro hd kept u n hscan
    rw [hscan.kept_eq, ne_eq, List.filter_eq_nil_iff]
    simp
  constructor
  · intro hall
    by_contra hcon
    simp only [GroupReadSafe, ← hp, not_or, not_lt] at hcon
    obtain ⟨hlast, hcount, hlink⟩ := hcon
    have hlastp : ∀ l ∈ xs.getLast?, p l = true := fun l hl => by
      by_contra hpl
      exact hlast ⟨l, hl, by simpa using hpl⟩
    have hwp : wp (stationNreadGroup att num group) (InputRecovers att xs) (fun _ _ => True) m :=
      ⟨hall, trivial⟩
    unfold stationNreadGroup noteRead at hwp
    simp only [wp_bind, wp_get, wp_store, hr.isList.cnt_eq] at hwp
    obtain ⟨-, -, -, -, -, -, -, -, -, hwp⟩ := hwp
    have hstart : GroupScan att m xs p (min num xs.length) [] [] [] xs
        { m with fix := readNotes m (min num xs.length) } := .start hr
    have hfirst : m.pl.firstevent = xs.head? := hr.isList.spans.first_eq hxs
    have hcount' : xs.countP p ≤ min num xs.length := le_min hcount List.countP_le_length
    have hwp' : wp (nreadGroupLoop att group xs.length ([] : List ℕ).getLast? xs.head?
        (min num xs.length)) (InputRecovers att xs) (fun _ _ => True)
        { m with fix := readNotes m (min num xs.length) } := by
      rw [← hfirst, readNotes, hr.isList.cnt_eq]
      exact wp_mono hwp (fun _ h => h) fun _ _ _ _ => trivial
    obtain ⟨u, hrec, hwin⟩ := exists_window hr hp hstart hxs (Nat.zero_add _).le hcount' hlastp
      rfl hwp'
    cases hwin with
    | unlinked hd kept ne scan count last link lastevent =>
        refine hlink ⟨(hkept scan).mp ne, ?_⟩
        exact (recovers_iff_of_unlinked hr hn0 ne scan lastevent last link).mp hrec
    | emptied hd scan count last => exact not_recovers_of_emptied hr hxs hn0 scan last hrec
  · intro hsafe t ht
    rcases (wp_stationNreadGroup hr hxs hnum).crash ht with hc | hw
    · exact hc.recovers
    · cases hw with
      | unlinked hd kept ne scan count last link lastevent =>
          rw [recovers_iff_of_unlinked hr hn0 ne scan lastevent last link]
          rcases hsafe with ⟨l, hl, hpl⟩ | hcount | ⟨-, hlink⟩
          · exact absurd (last l hl) (by simp [hpl])
          · exact absurd (count.trans (Nat.min_le_left _ _)) (not_le.mpr hcount)
          · exact hlink
      | emptied hd scan count last =>
          rcases hsafe with ⟨l, hl, hpl⟩ | hcount | ⟨hex, -⟩
          · exact absurd rfl ((hkept scan).mpr ⟨l, List.mem_of_getLast? hl, hpl⟩)
          · exact absurd (count.trans (Nat.min_le_left _ _)) (not_le.mpr hcount)
          · exact absurd rfl ((hkept scan).mpr hex)

/-- **Crash repair of an input list.**  `m` holds a well-formed list `xs` that is not
empty, as every reader requires before it touches the list.  Wherever a process
reading with `et_station_read` or `et_station_nread` dies, the repair stops and
leaves a repaired list.  For a scan of `et_station_nread_group` this holds at every
point exactly if the scan is a `GroupReadSafe` one. -/
theorem inputlist_recovers_iff (att : ℤ) (m : InMem) (xs : List ℕ) (hr : Readable m xs)
    (hxs : xs ≠ []) :
    (∀ t ∈ crashStates (stationRead att) m, InputRecovers att xs t) ∧
    (∀ num, num ≠ 0 → ∀ t ∈ crashStates (stationNread att num) m, InputRecovers att xs t) ∧
    (∀ num group, num ≠ 0 →
      ((∀ t ∈ crashStates (stationNreadGroup att num group) m, InputRecovers att xs t) ↔
        GroupReadSafe m xs num group)) := by
  refine ⟨fun t ht => ?_, fun num hnum t ht => ?_, fun num group hnum => ?_⟩
  · exact ((wp_stationRead hr hxs).crash ht).recovers
  · exact ((wp_stationNread hr hxs hnum).crash ht).recovers
  · exact groupRead_recovers_iff hr hxs hnum

/-- Two events, the second of group 1 with a link left over from earlier use that
leads out of the list. -/
def inputExample : InMem where
  ev := ⟨fun e => if e = 0 then some 1 else some 5, fun _ => etSys,
    fun e => { EventHeader.init with group := if e = 0 then 0 else 1 }⟩
  pl := ⟨2, 0, 0, 0, 0, some 0, some 1⟩
  fix := FixIn.init

theorem inputExample_readable : Readable inputExample [0, 1] where
  isList := by
    refine ⟨rfl, ?_, by decide, fun _ => rfl, fun _ => rfl⟩
    simp [inputExample]
  owned := by
    intro e _
    rfl
  closed := rfl

theorem inputlist_recovers_example : Readable inputExample [0, 1] ∧
    ∀ t ∈ crashStates (stationNreadGroup 0 1 0) inputExample, InputRecovers 0 [0, 1] t :=
  ⟨inputExample_readable,
    ((inputlist_recovers_iff 0 inputExample [0, 1] inputExample_readable (by decide)).2.2 1 0
      (by decide)).mpr (Or.inl ⟨1, rfl, by decide⟩)⟩

/-- Reading group 1 takes the last event: between the store that unlinks it and the
store of the list's last pointer, the links lead to event 5 and never to event 1. -/
theorem inputlist_group_not_recovered :
    ¬ ∀ t ∈ crashStates (stationNreadGroup 0 1 1) inputExample, InputRecovers 0 [0, 1] t := by
  rw [groupRead_recovers_iff inputExample_readable (by decide) (by decide)]
  unfold GroupReadSafe
  decide

end EventTransfer
