import EventTransfer.GcList

/-!
# The repair of GRAND_CENTRAL's input list

`et_repair_gcinputlist` counts the events of the list again and adds the difference to
the count of the events that came in, unless the list's count already shows the whole
batch.

* `GcWrote m xs new done t` — the list of `t` is the list `xs` of `m` with the events
  `done` of `new` appended to it.
* `DumpCrash m xs new t` — `t` is a memory a process dumping leaves when it dies.
* `DumpCrash.recovers_iff` — where the repair is right on such a memory.
* `wp_stationDump`, `wp_stationNdump` — every crash state of a dump is a `DumpCrash`,
  and a complete dump is a `DumpDone`.
-/

namespace EventTransfer

open LinkedHeap StoreProgram StoreProgram.Prog

/-- **The list after a dump of `done`**: the old events and then `done`, which belong
to the system.  Links of events of `new` that are not in yet may have been stored. -/
structure DumpFrame (m t : InMem) (xs new done : List ℕ) : Prop where
  hdr : t.ev.hdr = m.ev.hdr
  next : ∀ a, a ∉ xs ++ new → t.ev.next a = m.ev.next a
  owner : ∀ a, a ∉ done → t.ev.owner a = m.ev.owner a
  list : t.pl.lasthigh = m.pl.lasthigh ∧ t.pl.eventsTry = m.pl.eventsTry ∧
    t.pl.eventsOut = m.pl.eventsOut
  first : t.fix.first = m.fix.first

structure GcWrote (m : InMem) (xs new done : List ℕ) (t : InMem) : Prop where
  frame : DumpFrame m t xs new done
  isList : IsList t.ev t.pl (xs ++ done)
  owned : ∀ a ∈ done, t.ev.owner a = etSys

/-- The repair notes while `new` is appended to a list of `n` events. -/
structure DumpNoted (n eventsIn : ℕ) (new : List ℕ) (fix : FixIn) : Prop where
  cnt_eq : fix.cnt = n
  num_eq : fix.num = new.length
  start_eq : fix.start = 1
  eventsin_eq : fix.eventsin = eventsIn

/-- **What a process dumping leaves when it dies.**  Either the list is whole, and the
count of the events that came in says so or (`uncounted`) does not; or the events
`done` have been linked in but the list's count does not show all of them. -/
inductive DumpCrash (m : InMem) (xs new : List ℕ) (t : InMem) : Prop
  | whole (done : List ℕ) (pre : done <+: new) (wrote : GcWrote m xs new done t)
      (eventsIn : t.pl.eventsIn = m.pl.eventsIn + done.length)
      (note : t.fix.start = 0 ∨ t.pl.cnt = t.fix.cnt + t.fix.num ∨
        t.pl.cnt = 0 ∧ t.pl.firstevent = none)
  | uncounted (wrote : GcWrote m xs new new t) (eventsIn : t.pl.eventsIn = m.pl.eventsIn)
      (note : t.fix.start = 0 ∨ t.pl.cnt = t.fix.cnt + t.fix.num)
  | linking (done : List ℕ) (pre : done <+: new) (frame : DumpFrame m t xs new done)
      (start : t.fix.start ≠ 0) (cnt_ne : t.pl.cnt ≠ xs.length + new.length)
      (cnt_eq : t.fix.cnt = xs.length) (num_eq : t.fix.num = new.length)
      (eventsin : t.fix.eventsin = t.pl.eventsIn) (eventsIn : t.pl.eventsIn = m.pl.eventsIn)
      (ne : xs ++ done ≠ [])
      (spans : Spans t.ev.next t.pl.firstevent
        (if t.pl.cnt = 0 then t.pl.firstevent else t.pl.lastevent) (xs ++ done))

/-- **A repaired list of GRAND_CENTRAL** `ys`: well formed, with every old event in it,
every event dumped in it or still with its owner, and the events that came in
counted. -/
structure RepairedGc (m : InMem) (xs new ys : List ℕ) (u : InMem) : Prop where
  isList : IsList u.ev u.pl ys
  old : ∀ e ∈ xs, e ∈ ys
  absent : ∀ e ∈ new, e ∉ ys → u.ev.owner e = m.ev.owner e
  eventsIn : u.pl.eventsIn = m.pl.eventsIn + new.countP (· ∈ ys)

/-- After the death `t` the repair completes and leaves a repaired list. -/
def GcRecovers (m : InMem) (xs new : List ℕ) (t : InMem) : Prop :=
  ∃ u ys, repairGcinputlist t = some (.ok, u) ∧ RepairedGc m xs new ys u

/-- The repair's loop along a list: its events are given back and counted. -/
theorem repairGcinputLoop_eq {last p : Option ℕ} {n count : ℕ} {t : InMem} {ys : List ℕ}
    (hne : ys ≠ []) (hl : Linked t.ev.next ys) (hd : ys.Nodup) (hp : p = ys.head?)
    (hlast : last = ys.getLast?) (hn : ys.length ≤ n) :
    repairGcinputLoop last n p t count =
      some (.ok, { t with ev := t.ev.setOwners ys etSys }, count + ys.length) := by
  induction ys generalizing n p t count with
  | nil => exact absurd rfl hne
  | cons e ys ih =>
      obtain ⟨n, rfl⟩ : ∃ k, n = k + 1 := ⟨n - 1, by simp at hn; omega⟩
      rw [hp, List.head?_cons]
      unfold repairGcinputLoop
      cases ys with
      | nil =>
          rw [if_pos (by simp [hlast])]
          rfl
      | cons b ys =>
          rw [linked_cons_cons] at hl
          have hlast' : last = (b :: ys).getLast? := by simpa using hlast
          have hee : some e ≠ last := by
            rw [hlast']
            exact fun h => (List.nodup_cons.mp hd).1 (List.mem_of_getLast? h.symm)
          have hrec := @ih (t.ev.next e) n (count + 1) ⟨t.ev.setOwner e etSys, t.pl, t.fix⟩
            (List.cons_ne_nil b ys) hl.2 (List.nodup_cons.mp hd).2 hl.1 hlast' (by simpa using hn)
          rw [if_neg hee]
          refine hrec.trans ?_
          rw [Nat.add_assoc count, Nat.add_comm 1]
          rfl

section Repair

variable {m t : InMem} {xs new done : List ℕ}

theorem countP_done (hpre : done <+: new) (hnd : new.Nodup) (hdis : ∀ e ∈ new, e ∉ xs) :
    new.countP (· ∈ xs ++ done) = done.length := by
  obtain ⟨rest, rfl⟩ := hpre
  have hd : done.countP (· ∈ xs ++ done) = done.length := by
    rw [List.countP_eq_length]
    intro a ha
    simpa using Or.inr ha
  have hr : rest.countP (· ∈ xs ++ done) = 0 := by
    rw [List.countP_eq_zero]
    intro a ha
    have h1 := hdis a (List.mem_append_right _ ha)
    have h2 : a ∉ done := fun h => (List.nodup_append.mp hnd).2.2 a h a ha rfl
    simpa using ⟨h1, h2⟩
  rw [List.countP_append, hd, hr, Nat.add_zero]

/-- A list whose notes are closed, complete or of a write not begun is left alone. -/
theorem repairGcinputlist_quiet (h : t.fix.start = 0 ∨ t.pl.cnt = t.fix.cnt + t.fix.num ∨
    t.pl.cnt = 0 ∧ t.pl.firstevent = none) :
    ∃ fix, repairGcinputlist t = some (.ok, { t with fix := fix }) := by
  unfold repairGcinputlist
  split
  · exact ⟨t.fix, rfl⟩
  · rename_i hs
    split
    · exact ⟨_, rfl⟩
    · rename_i hcnt
      rw [if_pos ((h.resolve_left hs).resolve_left hcnt)]
      exact ⟨_, rfl⟩

theorem GcWrote.repaired (hw : GcWrote m xs new done t) (hpre : done <+: new) (hnd : new.Nodup)
    (hdis : ∀ e ∈ new, e ∉ xs) (hin : t.pl.eventsIn = m.pl.eventsIn + done.length) :
    RepairedGc m xs new (xs ++ done) t where
  isList := hw.isList
  old := fun e he => List.mem_append_left done he
  absent := fun e _ hnot => hw.frame.owner e fun hd => hnot (List.mem_append_right xs hd)
  eventsIn := by rw [hin, countP_done hpre hnd hdis]

/-- If the repair has nothing to do and no event was counted, an event that came in was
not counted. -/
theorem not_recovers_of_uncounted {e : ℕ} (he : e ∈ new) (howner : t.ev.owner e = etSys)
    (hatt : m.ev.owner e ≠ etSys) (hin : t.pl.eventsIn = m.pl.eventsIn)
    (note : t.fix.start = 0 ∨ t.pl.cnt = t.fix.cnt + t.fix.num) : ¬ GcRecovers m xs new t := by
  rintro ⟨u, ys, hrep, hys⟩
  obtain ⟨fix, hfix⟩ := repairGcinputlist_quiet (note.imp_right Or.inl)
  obtain rfl : { t with fix := fix } = u :=
    congrArg Prod.snd (Option.some.inj (hfix.symm.trans hrep))
  have hzero : new.countP (· ∈ ys) = 0 := by
    have := hys.eventsIn.symm.trans hin
    omega
  have hey : e ∉ ys := by simpa using List.countP_eq_zero.mp hzero e he
  exact hatt ((hys.absent e he hey).symm.trans howner)

/-- **Where the repair of a dead dump is right**: unless the list's count shows the
whole batch and the events that came in have not been counted. -/
theorem DumpCrash.recovers_iff (h : DumpCrash m xs new t) (hl : IsList m.ev m.pl xs)
    (hnew : new ≠ []) (hnd : new.Nodup) (hdis : ∀ e ∈ new, e ∉ xs)
    (hown : ∀ e ∈ new, m.ev.owner e ≠ etSys) :
    GcRecovers m xs new t ↔
      ¬ (t.pl.cnt = m.pl.cnt + new.length ∧ t.pl.eventsIn = m.pl.eventsIn) := by
  have hcnt := hl.cnt_eq
  have hlen : new.length ≠ 0 := fun hz => hnew (List.length_eq_zero_iff.mp hz)
  cases h with
  | whole done pre wrote eventsIn note =>
      have htcnt := wrote.isList.cnt_eq
      rw [List.length_append] at htcnt
      obtain ⟨fix, hfix⟩ := repairGcinputlist_quiet note
      have hrep := wrote.repaired pre hnd hdis eventsIn
      refine iff_of_true ⟨_, _, hfix, ⟨hrep.isList, hrep.old, hrep.absent, hrep.eventsIn⟩⟩ ?_
      omega
  | uncounted wrote eventsIn note =>
      have htcnt := wrote.isList.cnt_eq
      rw [List.length_append, ← hcnt] at htcnt
      refine iff_of_false ?_ (not_not.mpr ⟨htcnt, eventsIn⟩)
      obtain ⟨e, rest, rfl⟩ := List.exists_cons_of_ne_nil hnew
      have he : e ∈ e :: rest := List.mem_cons_self
      exact not_recovers_of_uncounted he (wrote.owned e he) (hown e he) eventsIn note
  | linking done pre frame start cnt_ne cnt_eq num_eq eventsin eventsIn ne spans =>
      refine iff_of_true ?_ fun hcon => cnt_ne (hcnt ▸ hcon.1)
      set last := if t.pl.cnt = 0 then t.pl.firstevent else t.pl.lastevent with hlast
      have hfirst : t.pl.firstevent ≠ none := by
        rw [spans.first_eq ne]
        exact fun h => ne (List.head?_eq_none_iff.mp h)
      have hle : (xs ++ done).length ≤ t.fix.cnt + t.fix.num := by
        rw [cnt_eq, num_eq, List.length_append]
        exact Nat.add_le_add_left pre.length_le _
      have hpl : (if t.pl.cnt = 0 then { t with pl.lastevent := t.pl.firstevent } else t) =
          (⟨t.ev, { t.pl with lastevent := last }, t.fix⟩ : InMem) := by
        rw [hlast]
        split <;> rfl
      have hloop := @repairGcinputLoop_eq last _ _ 0 ⟨t.ev, { t.pl with lastevent := last }, t.fix⟩
        _ ne spans.linked spans.nodup (spans.first_eq ne) (spans.last_eq ne) hle
      refine ⟨⟨t.ev.setOwners (xs ++ done) etSys, { t.pl with
          lastevent := last, cnt := (xs ++ done).length,
          eventsIn := t.pl.eventsIn + (xs ++ done).length - t.fix.cnt },
          { t.fix with start := 0 }⟩, xs ++ done, ?_, ⟨⟨rfl, ?_⟩, ?_, ?_, ?_⟩⟩
      · rw [repairGcinputlist, if_neg start, if_neg (by rw [cnt_eq, num_eq]; exact cnt_ne),
          if_neg fun h => hfirst h.2, hpl]
        show Option.map _ (repairGcinputLoop last _ t.pl.firstevent _ 0) = _
        rw [hloop, Option.map_some, Nat.zero_add]
        simp only [if_pos eventsin]
      · rw [Events.setOwners_next]
        exact spans
      · exact fun e he => List.mem_append_left done he
      · intro e he hnot
        rw [Events.setOwners_owner, if_neg hnot]
        exact frame.owner e fun hd => hnot (List.mem_append_right xs hd)
      · show t.pl.eventsIn + (xs ++ done).length - t.fix.cnt = _
        rw [countP_done pre hnd hdis, cnt_eq, eventsIn, List.length_append]
        omega

end Repair

/-! ## A dump, store by store -/

section Dump

variable {m t : InMem} {xs new done : List ℕ} {pe : ℕ}

theorem GcWrote.start (h : IsList m.ev m.pl xs) : GcWrote m xs new [] m :=
  ⟨⟨rfl, fun _ _ => rfl, fun _ _ => rfl, ⟨rfl, rfl, rfl⟩, rfl⟩, by simpa using h, by simp⟩

theorem GcWrote.cnt_eq_zero_iff (h : GcWrote m xs new [] t) : t.pl.cnt = 0 ↔ xs = [] := by
  rw [h.isList.cnt_eq, List.append_nil, List.length_eq_zero_iff]

/-- Neither the notes nor the statistics are part of the list. -/
theorem GcWrote.setNotes (h : GcWrote m xs new done t) {fix : FixIn} (hfirst : fix.first = t.fix.first)
    (n : ℕ) : GcWrote m xs new done ⟨t.ev, { t.pl with eventsIn := n }, fix⟩ :=
  ⟨⟨h.frame.hdr, h.frame.next, h.frame.owner, h.frame.list, hfirst.trans h.frame.first⟩,
    ⟨h.isList.cnt_eq, h.isList.spans⟩, h.owned⟩

/-- Between two events the list is one a process dumping may leave. -/
theorem GcWrote.crash (hw : GcWrote m xs new done t) (hn : DumpNoted xs.length m.pl.eventsIn new t.fix)
    (hin : t.pl.eventsIn = m.pl.eventsIn) (hpre : done <+: new) (hne : xs ++ done ≠ []) :
    DumpCrash m xs new t := by
  have hcnt := hw.isList.cnt_eq
  rw [List.length_append] at hcnt
  by_cases hlen : done.length = new.length
  · obtain rfl : done = new := hpre.eq_of_length hlen
    refine .uncounted hw hin (Or.inr ?_)
    rw [hn.cnt_eq, hn.num_eq, hcnt]
  · have hcnt0 : t.pl.cnt ≠ 0 := by
      rw [hw.isList.cnt_eq]
      exact fun h => hne (List.length_eq_zero_iff.mp h)
    refine .linking done hpre hw.frame (by simp [hn.start_eq]) (by omega) hn.cnt_eq hn.num_eq
      (hn.eventsin_eq.trans hin.symm) hin hne ?_
    rw [if_neg hcnt0]
    exact hw.isList.spans

/-- The repair notes are stored before the list is touched; the first of these
stores clears `firstevent` in an empty list. -/
theorem wp_noteDump (h : IsList m.ev m.pl xs) (h0 : m.fix.start = 0) :
    wp (noteDump new.length) (DumpCrash m xs new)
      (fun _ t => t.ev = m.ev ∧ GcWrote m xs new [] t ∧
        DumpNoted xs.length m.pl.eventsIn new t.fix ∧ t.pl.eventsIn = m.pl.eventsIn ∧
        (xs ≠ [] → t.pl = m.pl)) m := by
  have crash : ∀ {t : InMem}, GcWrote m xs new [] t → t.pl.eventsIn = m.pl.eventsIn →
      t.fix.start = 0 → DumpCrash m xs new t :=
    fun ht hin hs => .whole [] List.nil_prefix ht hin (Or.inl hs)
  have hw : GcWrote m xs new [] m := .start h
  have notes : ∀ t : InMem, t.ev = m.ev → GcWrote m xs new [] t → t.fix.start = 0 →
      t.pl.eventsIn = m.pl.eventsIn → (xs = [] → t.pl.firstevent = none) →
      (xs ≠ [] → t.pl = m.pl) →
      wp (do store fun t => { t with fix.eventsin := t.pl.eventsIn }
             store fun t => { t with fix.cnt := t.pl.cnt }
             store fun t => { t with fix.num := new.length }
             store fun t => { t with fix.call := .dump }
             store fun t => { t with fix.start := t.fix.start + 1 })
        (DumpCrash m xs new)
        (fun _ t => t.ev = m.ev ∧ GcWrote m xs new [] t ∧
          DumpNoted xs.length m.pl.eventsIn new t.fix ∧ t.pl.eventsIn = m.pl.eventsIn ∧
          (xs ≠ [] → t.pl = m.pl)) t := by
    intro t hev ht hs hin hnil hpl
    have hcnt : t.pl.cnt = xs.length := by simpa using ht.isList.cnt_eq
    have c : ∀ {fix : FixIn}, fix.first = t.fix.first → fix.start = 0 →
        DumpCrash m xs new ⟨t.ev, t.pl, fix⟩ :=
      fun hf hs => crash (ht.setNotes hf _) hin hs
    have hn : DumpNoted xs.length m.pl.eventsIn new { t.fix with
        eventsin := t.pl.eventsIn, cnt := t.pl.cnt, num := new.length, call := .dump,
        start := t.fix.start + 1 } := ⟨hcnt, rfl, by simp [hs], hin⟩
    have hw' : GcWrote m xs new [] ⟨t.ev, t.pl, { t.fix with
        eventsin := t.pl.eventsIn, cnt := t.pl.cnt, num := new.length, call := .dump,
        start := t.fix.start + 1 }⟩ := ht.setNotes (by rfl) _
    have hc : DumpCrash m xs new ⟨t.ev, t.pl, { t.fix with
        eventsin := t.pl.eventsIn, cnt := t.pl.cnt, num := new.length, call := .dump,
        start := t.fix.start + 1 }⟩ := by
      by_cases hne : xs = []
      · refine .whole [] List.nil_prefix hw' hin (Or.inr (Or.inr ⟨?_, hnil hne⟩))
        exact ht.cnt_eq_zero_iff.mpr hne
      · exact hw'.crash hn hin List.nil_prefix (by simpa using hne)
    simp only [wp_bind, wp_store]
    exact ⟨c rfl hs, c rfl hs, c rfl hs, c rfl hs, c rfl hs, c rfl hs, c rfl hs, c rfl hs,
      c rfl hs, hc, hev, hw', hn, hin, hpl⟩
  have hc := crash hw rfl h0
  unfold noteDump
  rw [wp_bind, wp_get]
  refine ⟨hc, ?_⟩
  rw [wp_bind, wp_when]
  split
  case isTrue hz =>
    obtain rfl : xs = [] := hw.cnt_eq_zero_iff.mp hz
    have hw₁ : GcWrote m [] new [] { m with pl.firstevent := none } :=
      ⟨⟨rfl, fun _ _ => rfl, fun _ _ => rfl, ⟨rfl, rfl, rfl⟩, rfl⟩,
        ⟨h.cnt_eq, .nil _ _ _⟩, by simp⟩
    rw [wp_store]
    exact ⟨hc, crash hw₁ rfl h0,
      notes _ rfl hw₁ h0 rfl (fun _ => rfl) fun hne => absurd rfl hne⟩
  case isFalse hz =>
    have hne : xs ≠ [] := fun hne => hz (hw.cnt_eq_zero_iff.mpr hne)
    exact ⟨hc, notes m rfl hw h0 rfl (fun hc => absurd hc hne) fun _ => rfl⟩

/-- **Appending one event** to a list that is not empty. -/
theorem GcWrote.append (hw : GcWrote m xs new done t)
    (hn : DumpNoted xs.length m.pl.eventsIn new t.fix) (hin : t.pl.eventsIn = m.pl.eventsIn)
    (hpre : done ++ [pe] <+: new) (hnd : new.Nodup) (hdis : ∀ a ∈ new, a ∉ xs)
    (hne : xs ++ done ≠ []) :
    DumpCrash m xs new
      ⟨t.ev.setNext (xs ++ done).getLast? (some pe), t.pl, t.fix⟩ ∧
    DumpCrash m xs new ⟨t.ev.setNext (xs ++ done).getLast? (some pe),
      { t.pl with lastevent := some pe }, t.fix⟩ ∧
    DumpCrash m xs new ⟨(t.ev.setNext (xs ++ done).getLast? (some pe)).setOwner pe etSys,
      { t.pl with lastevent := some pe }, t.fix⟩ ∧
    GcWrote m xs new (done ++ [pe])
      ⟨(t.ev.setNext (xs ++ done).getLast? (some pe)).setOwner pe etSys,
        { t.pl with lastevent := some pe, cnt := t.pl.cnt + 1 }, t.fix⟩ := by
  have hcnt := hw.isList.cnt_eq
  have hcnt0 : t.pl.cnt ≠ 0 := by
    rw [hcnt]
    exact fun h => hne (List.length_eq_zero_iff.mp h)
  have hpre0 : done <+: new := (List.prefix_append done [pe]).trans hpre
  have hpenew : pe ∈ new := hpre.subset (by simp)
  have hpe : pe ∉ xs ++ done := by
    rw [List.mem_append, not_or]
    refine ⟨hdis pe hpenew, fun hd => ?_⟩
    exact (List.nodup_append.mp (hnd.sublist hpre.sublist)).2.2 pe hd pe (by simp) rfl
  obtain ⟨ys, b, hys⟩ : ∃ ys b, xs ++ done = ys ++ [b] :=
    ⟨_, _, (List.dropLast_append_getLast hne).symm⟩
  have hb : b ∈ xs ++ new := by
    have hb' : b ∈ xs ++ done := by simp [hys]
    exact (List.mem_append.mp hb').elim (List.mem_append_left _)
      fun hd => List.mem_append_right _ (hpre0.subset hd)
  have hlast : (xs ++ done).getLast? = some b := by rw [hys, List.getLast?_concat]
  have hs := hw.isList.spans
  have hold : Spans (t.ev.setNext (some b) (some pe)).next t.pl.firstevent t.pl.lastevent
      (xs ++ done) := by
    rw [hys] at hs ⊢
    exact spans_setNext_last hs _
  have hnew : Spans (t.ev.setNext (some b) (some pe)).next t.pl.firstevent (some pe)
      (xs ++ (done ++ [pe])) := by
    rw [← List.append_assoc]
    rw [hys] at hs hpe ⊢
    exact hs.push_back hpe
  rw [hlast]
  have hframe : ∀ {ev : Events} {pl : EtList} {d : List ℕ},
      ev.next = (t.ev.setNext (some b) (some pe)).next → ev.hdr = t.ev.hdr →
      (∀ a, a ∉ d → ev.owner a = m.ev.owner a) →
      (pl.lasthigh = t.pl.lasthigh ∧ pl.eventsTry = t.pl.eventsTry ∧
        pl.eventsOut = t.pl.eventsOut) → DumpFrame m ⟨ev, pl, t.fix⟩ xs new d := by
    intro ev pl d hnext hhdr howner hpl
    obtain ⟨h1, h2, h3⟩ := hw.frame.list
    refine ⟨hhdr.trans hw.frame.hdr, fun a ha => ?_, howner,
      ⟨hpl.1.trans h1, hpl.2.1.trans h2, hpl.2.2.trans h3⟩, hw.frame.first⟩
    have hab : a ≠ b := fun h => ha (h ▸ hb)
    show ev.next a = m.ev.next a
    rw [hnext, Events.setNext_some_next, Function.update_of_ne hab]
    exact hw.frame.next a ha
  have howner : ∀ a, a ∉ done ++ [pe] → t.ev.owner a = m.ev.owner a := fun a ha =>
    hw.frame.owner a fun hd => ha (List.mem_append_left _ hd)
  have hlen := hpre.length_le
  rw [List.length_append, List.length_singleton] at hlen
  have hlink : ∀ {ev : Events} {pl : EtList} {d : List ℕ}, d <+: new →
      DumpFrame m ⟨ev, pl, t.fix⟩ xs new d → pl.cnt = t.pl.cnt → pl.eventsIn = t.pl.eventsIn →
      xs ++ d ≠ [] → Spans ev.next pl.firstevent pl.lastevent (xs ++ d) →
      DumpCrash m xs new ⟨ev, pl, t.fix⟩ := by
    intro ev pl d hd hf hc hi hne' hsp
    refine .linking d hd hf (by simp [hn.start_eq]) ?_ hn.cnt_eq hn.num_eq ?_ (hi.trans hin) hne' ?_
    · show pl.cnt ≠ _
      rw [hc, hcnt, List.length_append]
      omega
    · show t.fix.eventsin = pl.eventsIn
      rw [hn.eventsin_eq, hi, hin]
    · rw [if_neg (by rw [hc]; exact hcnt0)]
      exact hsp
  refine ⟨?_, ?_, ?_, ?_, ⟨?_, ?_⟩, ?_⟩
  · exact hlink hpre0 (hframe rfl (by simp) (by simpa using hw.frame.owner) ⟨rfl, rfl, rfl⟩) rfl
      rfl hne hold
  · exact hlink hpre (hframe rfl (by simp) (by simpa using howner) ⟨rfl, rfl, rfl⟩) rfl rfl
      (by simp) hnew
  · refine hlink hpre (hframe rfl (by simp) (fun a ha => ?_) ⟨rfl, rfl, rfl⟩) rfl rfl
      (by simp) hnew
    have hape : a ≠ pe := fun h => ha (by simp [h])
    rw [Events.setOwner_owner, Function.update_of_ne hape, Events.setNext_owner]
    exact howner a ha
  · refine hframe rfl (by simp) (fun a ha => ?_) ⟨rfl, rfl, rfl⟩
    have hape : a ≠ pe := fun h => ha (by simp [h])
    rw [Events.setOwner_owner, Function.update_of_ne hape, Events.setNext_owner]
    exact howner a ha
  · show t.pl.cnt + 1 = _
    rw [hcnt, ← List.append_assoc]
    simp only [List.length_append, List.length_singleton]
  · exact hnew
  · intro a ha
    show Function.update (t.ev.setNext (some b) (some pe)).owner pe etSys a = etSys
    rw [Function.update_apply, Events.setNext_owner]
    split
    · rfl
    · rename_i hape
      exact hw.owned a ((List.mem_append.mp ha).resolve_right (by simpa using hape))

/-- The first event dumped to an empty list is announced by `firstevent` alone: the
count is stored last. -/
theorem GcWrote.announce (hw : GcWrote m [] new [] t)
    (hn : DumpNoted 0 m.pl.eventsIn new t.fix) (hin : t.pl.eventsIn = m.pl.eventsIn)
    (hpre : [pe] <+: new) {ev : Events} (hev : ev = t.ev ∨ ev = t.ev.setOwner pe etSys)
    (last : Option ℕ) :
    DumpCrash m [] new ⟨ev, { t.pl with firstevent := some pe, lastevent := last }, t.fix⟩ := by
  have hcnt : t.pl.cnt = 0 := hw.cnt_eq_zero_iff.mpr rfl
  have hlen := hpre.length_le
  rw [List.length_singleton] at hlen
  refine .linking [pe] hpre ⟨?_, fun a ha => ?_, fun a ha => ?_, hw.frame.list, hw.frame.first⟩
    (by simp [hn.start_eq]) ?_ hn.cnt_eq hn.num_eq (hn.eventsin_eq.trans hin.symm) hin
    (List.cons_ne_nil pe []) ?_
  · rcases hev with rfl | rfl <;> exact hw.frame.hdr
  · rcases hev with rfl | rfl <;> exact hw.frame.next a ha
  · have hape : a ≠ pe := by simpa using ha
    rcases hev with rfl | rfl
    · exact hw.frame.owner a (by simp)
    · rw [Events.setOwner_owner, Function.update_of_ne hape]
      exact hw.frame.owner a (by simp)
  · show t.pl.cnt ≠ _
    rw [hcnt, List.length_nil]
    omega
  · rw [if_pos hcnt]
    exact .singleton _ pe

/-- With the count stored the first event is in. -/
theorem GcWrote.first (hw : GcWrote m [] new [] t) :
    GcWrote m [] new [pe] ⟨t.ev.setOwner pe etSys, { t.pl with
      cnt := t.pl.cnt + 1, firstevent := some pe, lastevent := some pe }, t.fix⟩ := by
  have hcnt : t.pl.cnt = 0 := hw.cnt_eq_zero_iff.mpr rfl
  refine ⟨⟨hw.frame.hdr, hw.frame.next, fun a ha => ?_, hw.frame.list, hw.frame.first⟩,
    ⟨by simp [hcnt], .singleton _ pe⟩, ?_⟩
  · have hape : a ≠ pe := by simpa using ha
    rw [Events.setOwner_owner, Function.update_of_ne hape]
    exact hw.frame.owner a (by simp)
  · intro a ha
    obtain rfl := List.mem_singleton.mp ha
    exact Function.update_self _ _ _

/-- **The loop of `et_station_ndump`**: with `done` in the list, it appends the rest. -/
theorem wp_ndumpLoop {rest : List ℕ} (hnew : new = done ++ rest) (hnd : new.Nodup)
    (hdis : ∀ a ∈ new, a ∉ xs) (hw : GcWrote m xs new done t)
    (hn : DumpNoted xs.length m.pl.eventsIn new t.fix) (hin : t.pl.eventsIn = m.pl.eventsIn)
    (hne : xs ++ done ≠ []) :
    wp (ndumpLoop rest (xs ++ done).getLast?) (DumpCrash m xs new)
      (fun _ u => GcWrote m xs new new u ∧ DumpNoted xs.length m.pl.eventsIn new u.fix ∧
        u.pl.eventsIn = m.pl.eventsIn) t := by
  induction rest generalizing done t with
  | nil =>
      obtain rfl : new = done := by simpa using hnew
      simp only [ndumpLoop, wp_pure]
      exact ⟨hw.crash hn hin (List.prefix_refl _) hne, hw, hn, hin⟩
  | cons pe rest ih =>
      have hnew' : new = (done ++ [pe]) ++ rest := by simp [hnew]
      have hpre : done ++ [pe] <+: new := ⟨rest, hnew'.symm⟩
      have hne' : xs ++ (done ++ [pe]) ≠ [] := by simp
      have hc := hw.crash hn hin ((List.prefix_append done [pe]).trans hpre) hne
      obtain ⟨c₁, c₂, c₃, hw'⟩ := hw.append hn hin hpre hnd hdis hne
      have hlast : (xs ++ (done ++ [pe])).getLast? = some pe := by
        rw [← List.append_assoc, List.getLast?_concat]
      have hloop := ih hnew' hw' hn hin hne'
      rw [hlast] at hloop
      unfold ndumpLoop
      simp only [wp_bind, wp_store]
      exact ⟨hc, c₁, c₁, c₂, c₂, c₃, c₃, hw'.crash hn hin hpre hne', hloop⟩

/-- What a dump has done when it returns: all of `new` is in the list and the repair
notes are closed, or the list was too full and nothing has changed. -/
def DumpDone (m : InMem) (xs new : List ℕ) (room : Prop) (r : Ret) (t : InMem) : Prop :=
  (room → r = .ok ∧ GcWrote m xs new new t ∧ t.fix.start = 0) ∧ (¬room → r = .error ∧ t = m)

/-- **`et_station_ndump`.** -/
theorem wp_stationNdump {nevents : ℕ} (h : IsList m.ev m.pl xs) (h0 : m.fix.start = 0)
    (hnd : new.Nodup) (hdis : ∀ a ∈ new, a ∉ xs) :
    wp (stationNdump nevents new) (DumpCrash m xs new)
      (DumpDone m xs new (new.length ≤ nevents - m.pl.cnt)) m := by
  have hw : GcWrote m xs new [] m := .start h
  have hc : DumpCrash m xs new m := .whole [] List.nil_prefix hw rfl (Or.inl h0)
  cases new with
  | nil =>
      simp only [stationNdump, wp_pure]
      exact ⟨hc, fun _ => ⟨rfl, hw, h0⟩, fun h => absurd (Nat.zero_le _) h⟩
  | cons pe rest =>
      unfold stationNdump
      rw [wp_bind, wp_get]
      refine ⟨hc, ?_⟩
      rw [wp_ite]
      split
      case isTrue hfull =>
        rw [wp_pure]
        refine ⟨hc, fun hroom => ?_, fun _ => ⟨rfl, rfl⟩⟩
        rw [List.length_cons] at hroom
        omega
      case isFalse hroom =>
        replace hroom : (pe :: rest).length ≤ nevents - m.pl.cnt := not_lt.mp hroom
        have hnote := @wp_noteDump m xs (pe :: rest) h h0
        rw [List.length_cons] at hnote
        rw [wp_bind]
        refine wp_mono hnote (fun _ h => h) ?_
        rintro - t ht ⟨hev, hwt, hnt, hin, hpl⟩
        -- the last store closes the notes
        have close : ∀ u : InMem, GcWrote m xs (pe :: rest) (pe :: rest) u →
            DumpNoted xs.length m.pl.eventsIn (pe :: rest) u.fix →
            u.pl.eventsIn = m.pl.eventsIn →
            wp (do store fun t => { t with fix.start := t.fix.start - 1 }; pure Ret.ok)
              (DumpCrash m xs (pe :: rest))
              (DumpDone m xs (pe :: rest) ((pe :: rest).length ≤ nevents - m.pl.cnt)) u := by
          intro u hwu hnu hinu
          have hw' : GcWrote m xs (pe :: rest) (pe :: rest)
              ⟨u.ev, u.pl, { u.fix with start := u.fix.start - 1 }⟩ := hwu.setNotes (by rfl) _
          have hs : u.fix.start - 1 = 0 := by rw [hnu.start_eq]
          have c₁ := hwu.crash hnu hinu (List.prefix_refl _) (by simp)
          have c₂ := DumpCrash.uncounted hw' hinu (Or.inl hs)
          simp only [wp_bind, wp_store, wp_pure]
          exact ⟨c₁, c₂, c₂, fun _ => ⟨rfl, hw', hs⟩, fun h => absurd hroom h⟩
        simp only [wp_ite]
        split
        case isTrue hz =>
          obtain rfl : xs = [] := hw.cnt_eq_zero_iff.mp hz
          have hpre : [pe] <+: pe :: rest := ⟨rest, rfl⟩
          have c₁ := fun le => hwt.announce hnt hin hpre (Or.inl rfl) le
          have c₂ := fun le => hwt.announce hnt hin hpre (Or.inr rfl) le
          have counted := @GcWrote.first m t _ pe hwt
          have c₃ := counted.crash hnt hin hpre (List.cons_ne_nil pe [])
          have hloop := wp_ndumpLoop (show pe :: rest = [pe] ++ rest from rfl) hnd hdis counted
            hnt hin (List.cons_ne_nil pe [])
          simp only [wp_bind, wp_store]
          refine ⟨ht, c₁ _, c₁ _, c₁ _, c₁ _, c₂ _, c₂ _, c₃, ?_⟩
          refine wp_mono hloop (fun _ h => h) ?_
          rintro _ u - ⟨hwu, hnu, hinu⟩
          simpa only [wp_bind, wp_store] using close u hwu hnu hinu
        case isFalse hz =>
          have hne : xs ≠ [] := fun hne => hz (hw.cnt_eq_zero_iff.mpr hne)
          have hloop := wp_ndumpLoop (List.nil_append _).symm hnd hdis hwt hnt hin
            (by simpa using hne)
          rw [List.append_nil, ← h.spans.last_eq hne] at hloop
          rw [wp_bind]
          refine wp_mono hloop (fun _ h => h) ?_
          rintro _ u - ⟨hwu, hnu, hinu⟩
          exact close u hwu hnu hinu

/-- **`et_station_dump`.** -/
theorem wp_stationDump {nevents : ℕ} (h : IsList m.ev m.pl xs) (h0 : m.fix.start = 0)
    (hpe : pe ∉ xs) :
    wp (stationDump nevents pe) (DumpCrash m xs [pe])
      (DumpDone m xs [pe] (1 ≤ nevents - m.pl.cnt)) m := by
  have hw : GcWrote m xs [pe] [] m := .start h
  have hc : DumpCrash m xs [pe] m := .whole [] List.nil_prefix hw rfl (Or.inl h0)
  unfold stationDump
  rw [wp_bind, wp_get]
  refine ⟨hc, ?_⟩
  rw [wp_ite]
  split
  case isTrue hfull =>
    rw [wp_pure]
    exact ⟨hc, fun hroom => by omega, fun _ => ⟨rfl, rfl⟩⟩
  case isFalse hfull =>
    have hroom : 1 ≤ nevents - m.pl.cnt := by omega
    have hnote := @wp_noteDump m xs [pe] h h0
    rw [wp_bind]
    refine wp_mono hnote (fun _ h => h) ?_
    rintro - t ht ⟨hev, hwt, hnt, hin, hpl⟩
    have hpre : [pe] <+: [pe] := List.prefix_refl _
    -- the three stores after the event's count has been stored
    have close : ∀ u : InMem, GcWrote m xs [pe] [pe] u →
        DumpNoted xs.length m.pl.eventsIn [pe] u.fix → u.pl.eventsIn = m.pl.eventsIn →
        wp (do store fun t => { t with pl.eventsIn := t.pl.eventsIn + 1 }
               store fun t => { t with fix.start := t.fix.start - 1 }
               pure Ret.ok)
          (DumpCrash m xs [pe]) (DumpDone m xs [pe] (1 ≤ nevents - m.pl.cnt)) u := by
      intro u hwu hnu hinu
      have hcnt : u.pl.cnt = u.fix.cnt + u.fix.num := by
        rw [hwu.isList.cnt_eq, hnu.cnt_eq, hnu.num_eq, List.length_append]
      have hw₁ : GcWrote m xs [pe] [pe]
          ⟨u.ev, { u.pl with eventsIn := u.pl.eventsIn + 1 }, u.fix⟩ := hwu.setNotes rfl _
      have hw₂ : GcWrote m xs [pe] [pe] ⟨u.ev, { u.pl with eventsIn := u.pl.eventsIn + 1 },
          { u.fix with start := u.fix.start - 1 }⟩ := hwu.setNotes (by rfl) _
      have hin' : u.pl.eventsIn + 1 = m.pl.eventsIn + [pe].length := by rw [hinu]; rfl
      have hs : u.fix.start - 1 = 0 := by rw [hnu.start_eq]
      have c₁ := hwu.crash hnu hinu hpre (by simp)
      have c₂ := DumpCrash.whole [pe] hpre hw₁ hin' (Or.inr (Or.inl hcnt))
      have c₃ := DumpCrash.whole [pe] hpre hw₂ hin' (Or.inl hs)
      simp only [wp_bind, wp_store, wp_pure]
      exact ⟨c₁, c₂, c₂, c₃, c₃, fun _ => ⟨rfl, hw₂, hs⟩, fun h => absurd hroom h⟩
    simp only [wp_ite]
    split
    case isTrue hz =>
      obtain rfl : xs = [] := hw.cnt_eq_zero_iff.mp hz
      have c₁ := fun le => hwt.announce hnt hin hpre (Or.inl rfl) le
      have c₂ := fun le => hwt.announce hnt hin hpre (Or.inr rfl) le
      have counted := @GcWrote.first m t _ pe hwt
      have hclose := close _ counted hnt hin
      simp only [wp_bind, wp_store] at hclose ⊢
      exact ⟨ht, c₁ _, c₁ _, c₁ _, c₁ _, c₂ _, c₂ _, hclose.1, hclose⟩
    case isFalse hz =>
      have hne : xs ≠ [] := fun hne => hz (hw.cnt_eq_zero_iff.mpr hne)
      have hdis : ∀ a ∈ [pe], a ∉ xs := by simpa using hpe
      have htlast : t.pl.lastevent = (xs ++ []).getLast? := by
        rw [hpl hne, List.append_nil, h.spans.last_eq hne]
      obtain ⟨c₁, c₂, c₃, hw'⟩ := hwt.append hnt hin hpre (List.nodup_singleton pe) hdis
        (by simpa using hne)
      rw [← htlast] at c₁ c₂ c₃ hw'
      have hclose := close _ hw' hnt hin
      simp only [wp_bind, wp_store] at hclose ⊢
      exact ⟨ht, c₁, c₁, c₂, c₂, c₃, c₃, hclose.1, hclose⟩

end Dump

/-! ## The crash repair of GRAND_CENTRAL's list -/

/-- What a complete `et_station_ndump` does whatever the events: it gives them to the
system and leaves the count of the events that came in. -/
theorem wp_ndumpLoop_owner (pes : List ℕ) (last : Option ℕ) (t : InMem) :
    wp (ndumpLoop pes last) (fun _ => True) (fun _ u => u.pl.eventsIn = t.pl.eventsIn ∧
      u.fix = t.fix ∧ ∀ a, t.ev.owner a = etSys ∨ a ∈ pes → u.ev.owner a = etSys) t := by
  induction pes generalizing last t with
  | nil => simp [ndumpLoop]
  | cons pe pes ih =>
      unfold ndumpLoop
      simp only [wp_bind, wp_store, true_and]
      refine wp_mono (ih _ _) (fun _ h => h) ?_
      rintro _ u - ⟨hin, hfix, howner⟩
      refine ⟨hin, hfix, fun a ha => howner a ?_⟩
      show Function.update (t.ev.setNext last (some pe)).owner pe etSys a = etSys ∨ _
      rw [Function.update_apply, Events.setNext_owner]
      rcases ha with ha | ha
      · left
        split
        · rfl
        · exact ha
      · rcases List.mem_cons.mp ha with rfl | ha
        · exact Or.inl (if_pos rfl)
        · exact Or.inr ha

theorem wp_stationNdump_owner {nevents : ℕ} {m : InMem} {new : List ℕ} (h0 : m.fix.start = 0)
    (hroom : new.length ≤ nevents - m.pl.cnt) :
    wp (stationNdump nevents new) (fun _ => True) (fun _ u =>
      u.pl.eventsIn = m.pl.eventsIn ∧ u.fix.start = 0 ∧ ∀ a ∈ new, u.ev.owner a = etSys) m := by
  cases new with
  | nil => simp [stationNdump, h0]
  | cons pe rest =>
      unfold stationNdump noteDump
      rw [List.length_cons] at hroom
      have hstart : m.fix.start + 1 - 1 = 0 := by rw [h0]
      simp only [wp_bind, wp_get, wp_ite, wp_when, wp_store, wp_pure, true_and]
      rw [if_neg (by omega)]
      split
      · refine wp_mono (wp_ndumpLoop_owner _ _ _) (fun _ h => h) ?_
        rintro _ u - ⟨hin, hfix, howner⟩
        refine ⟨hin, by rw [hfix]; exact hstart, fun a ha => howner a ?_⟩
        rcases List.mem_cons.mp ha with rfl | ha
        · exact Or.inl (Function.update_self _ _ _)
        · exact Or.inr ha
      · refine wp_mono (wp_ndumpLoop_owner _ _ _) (fun _ h => h) ?_
        rintro _ u - ⟨hin, hfix, howner⟩
        exact ⟨hin, by rw [hfix]; exact hstart, fun a ha => howner a (Or.inr ha)⟩

/-- A batch the list has no room for is refused before the first store. -/
theorem crashStates_stationNdump_full {nevents : ℕ} {m t : InMem} {new : List ℕ}
    (hfull : new = [] ∨ nevents - m.pl.cnt < new.length)
    (ht : t ∈ crashStates (stationNdump nevents new) m) : t = m := by
  have hwp : wp (stationNdump nevents new) (fun t => t = m) (fun _ _ => True) m := by
    cases new with
    | nil => simp [stationNdump]
    | cons pe rest =>
        replace hfull := hfull.resolve_left (List.cons_ne_nil pe rest)
        rw [List.length_cons] at hfull
        unfold stationNdump
        rw [wp_bind, wp_get, wp_ite, if_pos hfull, wp_pure]
        exact ⟨rfl, rfl, trivial⟩
  exact hwp.crash ht

/-- A complete write of `et_station_ndump` is never counted. -/
theorem not_recovers_stationNdump {nevents : ℕ} {m : InMem} {xs new : List ℕ} (hnew : new ≠ [])
    (h0 : m.fix.start = 0) (hatt : ∀ e ∈ new, m.ev.owner e ≠ etSys)
    (hroom : new.length ≤ nevents - m.pl.cnt) :
    ¬ ∀ t ∈ crashStates (stationNdump nevents new) m, GcRecovers m xs new t := by
  intro hall
  obtain ⟨hin, hstart, howner⟩ := (wp_stationNdump_owner h0 hroom).2
  have he := List.head_mem hnew
  exact not_recovers_of_uncounted he (howner _ he) (hatt _ he) hin (Or.inl hstart)
    (hall _ (final_mem_crashStates _ m))

/-- **Crash repair of GRAND_CENTRAL's list.**  `m` holds a well-formed list `xs` owned by
the system; the events dumped are held by the attachment `att`.

For `et_station_dump`, and for `et_station_ndump` with a batch of different events, the
repair is right at a point of the dump exactly if the list's count does not yet show
the whole batch or the events that came in have been counted.  `et_station_ndump`
never counts them, so for no batch that is not empty and not refused is the repair
right at every point, whatever its events. -/
theorem gclist_recovers_iff (nevents : ℕ) (m : InMem) (xs : List ℕ) (att : ℕ)
    (h : IsList m.ev m.pl xs) (hown : ∀ e ∈ xs, m.ev.owner e = etSys)
    (h0 : m.fix.start = 0) :
    (∀ pe, m.ev.owner pe = att → ∀ t ∈ crashStates (stationDump nevents pe) m,
      (GcRecovers m xs [pe] t ↔
        ¬ (t.pl.cnt = m.pl.cnt + 1 ∧ t.pl.eventsIn = m.pl.eventsIn))) ∧
    (∀ new, (∀ e ∈ new, m.ev.owner e = att) → new.Nodup → new ≠ [] →
      ∀ t ∈ crashStates (stationNdump nevents new) m,
        (GcRecovers m xs new t ↔
          ¬ (t.pl.cnt = m.pl.cnt + new.length ∧ t.pl.eventsIn = m.pl.eventsIn))) ∧
    (∀ new, (∀ e ∈ new, m.ev.owner e = att) →
      ((∀ t ∈ crashStates (stationNdump nevents new) m, GcRecovers m xs new t) ↔
        new = [] ∨ nevents - m.pl.cnt < new.length)) := by
  have hatt : ∀ new : List ℕ, (∀ e ∈ new, m.ev.owner e = att) →
      ∀ e ∈ new, m.ev.owner e ≠ etSys := by
    intro new hnew e he hsys
    have hneg : (att : ℤ) = -1 := (hnew e he).symm.trans hsys
    omega
  have hdis : ∀ new : List ℕ, (∀ e ∈ new, m.ev.owner e = att) → ∀ e ∈ new, e ∉ xs :=
    fun new hnew e he hx => hatt new hnew e he (hown e hx)
  refine ⟨fun pe hpe t ht => ?_, fun new hnew hnd hne t ht => ?_, fun new hnew => ?_⟩
  · have hnew : ∀ e ∈ [pe], m.ev.owner e = att := by simpa using hpe
    have hd := hdis [pe] hnew
    exact ((wp_stationDump h h0 (hd pe (by simp))).crash ht).recovers_iff h
      (List.cons_ne_nil pe []) (List.nodup_singleton pe) hd (hatt [pe] hnew)
  · have hd := hdis new hnew
    exact ((wp_stationNdump h h0 hnd hd).crash ht).recovers_iff h hne hnd hd (hatt new hnew)
  · constructor
    · intro hall
      by_contra hcon
      rw [not_or, not_lt] at hcon
      exact not_recovers_stationNdump hcon.1 h0 (hatt new hnew) hcon.2 hall
    · intro hcond t ht
      rw [crashStates_stationNdump_full hcond ht]
      refine ⟨m, xs, by rw [repairGcinputlist, if_pos h0], h, fun _ he => he, fun _ _ _ => rfl, ?_⟩
      have hzero : new.countP (· ∈ xs) = 0 := by
        rw [List.countP_eq_zero]
        intro e he
        simpa using hdis new hnew e he
      rw [hzero, Nat.add_zero]

/-- One event in GRAND_CENTRAL's list, and events held by attachment 0. -/
def gcExample : InMem where
  ev := ⟨fun _ => none, fun e => if e = 0 then etSys else 0, fun _ => EventHeader.init⟩
  pl := ⟨1, 0, 0, 7, 0, some 0, some 0⟩
  fix := FixIn.init

theorem gclist_recovers_example : [1, 2].Nodup ∧
    ∀ t ∈ crashStates (stationNdump 3 [1, 2]) gcExample,
      (GcRecovers gcExample [0] [1, 2] t ↔ ¬ (t.pl.cnt = 1 + 2 ∧ t.pl.eventsIn = 7)) := by
  have hnd : [1, 2].Nodup := by decide
  exact ⟨hnd, (gclist_recovers_iff 3 gcExample [0] 0 ⟨rfl, .singleton _ 0⟩ (by decide) rfl).2.1
    [1, 2] (by decide) hnd (by decide)⟩

/-- Dumping one event with `et_station_ndump`: the event is in the list, and the count
of the events that came in is still 7. -/
theorem gclist_ndump_not_recovered :
    ¬ ∀ t ∈ crashStates (stationNdump 3 [1]) gcExample, GcRecovers gcExample [0] [1] t :=
  not_recovers_stationNdump (by decide) rfl (by decide) (by decide)

end EventTransfer
