import EventTransfer.OutputWrite

/-!
# The repair of an output list

`et_repair_outputlist` is run on an output list whose writer died with the list
locked.  It walks from `firstevent` to `lastevent`, gives every event it meets back
to the system and counts.  `WriteCrash.recovers` says that this is right on every
memory a dead writer leaves; `outputlist_recovers_iff` is the result about the
writers themselves.
-/

namespace EventTransfer

open LinkedHeap StoreProgram StoreProgram.Prog

/-- The repair's loop along a list: its events are given back and counted. -/
theorem repairOutputLoop_eq {last p : Option ℕ} {n count lasthigh : ℕ} {t : OutMem}
    {ys : List ℕ} (hne : ys ≠ []) (hl : Linked t.ev.next ys) (hd : ys.Nodup)
    (hp : p = ys.head?) (hlast : last = ys.getLast?) (hn : ys.length ≤ n) :
    repairOutputLoop last n p t count lasthigh =
      some (.ok, { t with ev := t.ev.setOwners ys etSys }, count + ys.length,
        lasthigh + ys.countP t.ev.isHigh) := by
  induction ys generalizing n p t count lasthigh with
  | nil => exact absurd rfl hne
  | cons e ys ih =>
      obtain ⟨n, rfl⟩ : ∃ k, n = k + 1 := ⟨n - 1, by simp at hn; omega⟩
      have hcount : lasthigh + (e :: ys).countP t.ev.isHigh =
          (if t.ev.isHigh e then lasthigh + 1 else lasthigh) + ys.countP t.ev.isHigh := by
        rw [List.countP_cons]
        split <;> omega
      rw [hp, List.head?_cons, hcount]
      unfold repairOutputLoop
      simp only [Events.setOwner_isHigh, Events.setOwner_next]
      cases ys with
      | nil =>
          rw [if_pos (by simp [hlast])]
          rfl
      | cons b ys =>
          rw [linked_cons_cons] at hl
          have hlast' : last = (b :: ys).getLast? := by simpa using hlast
          have hee : some e ≠ last := by
            rw [hlast']
            exact fun h => (List.nodup_cons.mp hd).1 (List.mem_of_getLast? h.symm)
          rw [if_neg hee]
          have hrec := fun lasthigh => @ih _ n (count + 1) lasthigh
            ⟨t.ev.setOwner e etSys, t.pl, t.fix⟩ (List.cons_ne_nil b ys) hl.2
            (List.nodup_cons.mp hd).2 hl.1 hlast' (by simpa using hn)
          refine (hrec _).trans ?_
          rw [Nat.add_assoc count, Nat.add_comm 1]
          rfl

/-- **A repaired output list** `ys`: it is in priority order with its counts right,
all of its events belong to the system, it keeps the old events `xs` in their
order, and each of the events `new` that were being written is in it or still
belongs to its writer. -/
structure RepairedOutput (m : OutMem) (xs new ys : List ℕ) (u : OutMem) : Prop where
  isList : IsList u.ev u.pl ys
  highFirst : HighFirst u.ev.isHigh (u.pl.lasthigh, ys)
  owned : ∀ e ∈ ys, u.ev.owner e = etSys
  only : ∀ e ∈ ys, e ∈ xs ∨ e ∈ new
  old : ys.filter (· ∈ xs) = xs
  absent : ∀ e ∈ new, e ∉ ys → u.ev.owner e = m.ev.owner e

/-- After the death `t` the repair completes and leaves a repaired list. -/
def OutputRecovers (m : OutMem) (xs new : List ℕ) (t : OutMem) : Prop :=
  ∃ u ys, repairOutputlist t = some (.ok, u) ∧ RepairedOutput m xs new ys u

section Repair

variable {m t : OutMem} {xs new done : List ℕ}

/-- A list that is whole needs no repair. -/
theorem Wrote.repaired (hw : Wrote m xs new done t) (hpre : done <+: new)
    (hh : HighFirst m.ev.isHigh (m.pl.lasthigh, xs)) (hown : ∀ e ∈ xs, m.ev.owner e = etSys)
    (hdis : ∀ e ∈ new, e ∉ xs) :
    RepairedOutput m xs new (putEvents m.ev.isHigh (m.pl.lasthigh, xs) done).2 t where
  isList := hw.isList
  highFirst := by
    rw [hw.frame.isHigh, hw.lasthigh_eq]
    exact hh.putEvents done
  owned := by
    intro e he
    by_cases hd : e ∈ done
    · exact hw.owned e hd
    · rw [hw.frame.owner e hd]
      exact hown e ((mem_putEvents.mp he).resolve_right hd)
  only := fun e he => (mem_putEvents.mp he).imp_right (hpre.subset ·)
  old := by
    rw [filter_putEvents]
    · simp
    · intro a ha
      simpa using hdis a (hpre.subset ha)
  absent := fun e _ hnot => hw.frame.owner e fun hd => hnot (mem_putEvents.mpr (Or.inr hd))

/-- **The repair completes on whatever a dead writer leaves.** -/
theorem WriteCrash.recovers (h : WriteCrash m xs new t)
    (hh : HighFirst m.ev.isHigh (m.pl.lasthigh, xs)) (hown : ∀ e ∈ xs, m.ev.owner e = etSys)
    (hdis : ∀ e ∈ new, e ∉ xs) : OutputRecovers m xs new t := by
  cases h with
  | whole done pre wrote note =>
      by_cases hs : t.fix.start = 0
      · refine ⟨t, _, ?_, wrote.repaired pre hh hown hdis⟩
        rw [repairOutputlist, if_pos hs]
      · refine ⟨{ t with fix.start := 0 }, _, ?_,
          (wrote.setFix _).repaired pre hh hown hdis⟩
        rw [repairOutputlist, if_neg hs]
        split
        · rfl
        · rename_i hcnt
          rw [if_pos ((note.resolve_left hs).resolve_left hcnt)]
  | linking done pre frame start cnt_ne num_eq ne spans =>
      set ys := (putEvents m.ev.isHigh (m.pl.lasthigh, xs) done).2 with hys
      set last := if t.pl.cnt = 0 then t.pl.firstevent else t.pl.lastevent with hlast
      have hfirst : t.pl.firstevent ≠ none := by
        rw [spans.first_eq ne]
        exact fun h => ne (List.head?_eq_none_iff.mp h)
      have hlen : ys.length ≤ t.fix.cnt + t.fix.num := by
        rw [num_eq, hys, length_putEvents]
        exact Nat.add_le_add_left pre.length_le _
      have hhigh := frame.isHigh
      have hcount : ys.countP m.ev.isHigh =
          (putEvents m.ev.isHigh (m.pl.lasthigh, xs) done).1 := (hh.putEvents done).countP_eq
      -- the walk gives the events back and counts them
      have hwrote : Wrote m xs new done
          ⟨t.ev.setOwners ys etSys, { t.pl with
            lastevent := last, cnt := ys.length, lasthigh := ys.countP m.ev.isHigh },
            { t.fix with start := 0 }⟩ := by
        refine ⟨⟨?_, ?_, ?_, frame.counters⟩, ⟨rfl, ?_⟩, hcount, ?_⟩
        · simpa using frame.hdr
        · intro a ha
          rw [Events.setOwners_next]
          exact frame.next a ha
        · intro a ha
          rw [Events.setOwners_owner]
          split
          case isTrue hmem =>
            exact (hown a ((mem_putEvents.mp hmem).resolve_right ha)).symm
          case isFalse => exact frame.owner a ha
        · rw [Events.setOwners_next]
          exact spans
        · intro a ha
          rw [Events.setOwners_owner, if_pos (mem_putEvents.mpr (Or.inr ha))]
      refine ⟨_, _, ?_, hwrote.repaired pre hh hown hdis⟩
      rw [repairOutputlist, if_neg start, if_neg cnt_ne, if_neg fun h => hfirst h.2]
      have hpl : (if t.pl.cnt = 0 then { t with pl.lastevent := t.pl.firstevent } else t) =
          (⟨t.ev, { t.pl with lastevent := last }, t.fix⟩ : OutMem) := by
        rw [hlast]
        split <;> rfl
      have hloop := @repairOutputLoop_eq last _ _ 0 0 ⟨t.ev, { t.pl with lastevent := last }, t.fix⟩
        ys ne spans.linked spans.nodup (spans.first_eq ne) (spans.last_eq ne) hlen
      rw [hpl]
      show Option.map _ (repairOutputLoop last _ t.pl.firstevent _ 0 0) = _
      rw [hloop, Option.map_some, hhigh, Nat.zero_add, Nat.zero_add]

end Repair

/-! ## A batch that names an event twice -/

/-- What a complete write does to the count and the repair notes, whatever the
events. -/
theorem wp_linkEvent_cnt (pe : ℕ) (h l : Option ℕ) (t : OutMem) :
    wp (linkEvent pe h l) (fun _ => True) (fun _ u => u.pl.cnt = t.pl.cnt ∧ u.fix = t.fix) t := by
  unfold linkEvent
  simp only [wp_bind, wp_get, wp_ite, wp_store, wp_pure, true_and, and_self, ite_self]

theorem wp_nwriteLoop_cnt (pes : List ℕ) (h l : Option ℕ) (t : OutMem) :
    wp (nwriteLoop pes h l) (fun _ => True)
      (fun _ u => u.pl.cnt = t.pl.cnt + pes.length ∧ u.fix = t.fix) t := by
  induction pes generalizing h l t with
  | nil => simp [nwriteLoop]
  | cons pe pes ih =>
      unfold nwriteLoop
      rw [wp_bind]
      refine wp_mono (wp_linkEvent_cnt pe h l t) (fun _ h => h) ?_
      rintro p u - ⟨hcnt, hfix⟩
      simp only [wp_bind, wp_store, true_and]
      refine wp_mono (ih _ _ _) (fun _ h => h) ?_
      rintro _ v - ⟨hcnt', hfix'⟩
      refine ⟨?_, hfix'.trans hfix⟩
      rw [hcnt', List.length_cons, ← hcnt]
      show u.pl.cnt + 1 + pes.length = _
      omega

theorem wp_stationNwrite_cnt {nevents : ℕ} {m : OutMem} {new : List ℕ} (h0 : m.fix.start = 0)
    (hroom : new.length ≤ nevents - m.pl.cnt) :
    wp (stationNwrite nevents new) (fun _ => True)
      (fun _ u => u.pl.cnt = m.pl.cnt + new.length ∧ u.fix.start = 0) m := by
  cases new with
  | nil => simp [stationNwrite, h0]
  | cons pe rest =>
      -- all that matters of the memory in which the loop starts
      have loop : ∀ (pes : List ℕ) (h l : Option ℕ) (v : OutMem),
          v.pl.cnt + pes.length = m.pl.cnt + (pe :: rest).length → v.fix.start = 1 →
          wp (nwriteLoop pes h l) (fun _ => True) (fun _ u =>
            u.pl.cnt = m.pl.cnt + (pe :: rest).length ∧ u.fix.start - 1 = 0) v := by
        intro pes h l v hcnt hstart
        refine wp_mono (wp_nwriteLoop_cnt pes h l v) (fun _ h => h) ?_
        rintro _ u - ⟨hcnt', hfix⟩
        exact ⟨hcnt'.trans hcnt, by rw [hfix, hstart]⟩
      unfold stationNwrite noteWrite
      rw [List.length_cons] at hroom
      simp only [wp_bind, wp_get, wp_ite, wp_when, wp_store, wp_pure, true_and]
      rw [if_neg (by omega)]
      have hstart : m.fix.start + 1 = 1 := by rw [h0]
      have hcnt : m.pl.cnt + 1 + rest.length = m.pl.cnt + (pe :: rest).length := by
        rw [List.length_cons, Nat.add_right_comm, Nat.add_assoc]
      split
      · split
        · exact loop _ _ _ _ hcnt hstart
        · exact loop _ _ _ _ hcnt hstart
      · exact loop _ _ _ _ rfl hstart

/-- A batch the list has no room for is refused before the first store. -/
theorem crashStates_stationNwrite_full {nevents : ℕ} {m t : OutMem} {new : List ℕ}
    (hfull : nevents - m.pl.cnt < new.length)
    (ht : t ∈ crashStates (stationNwrite nevents new) m) : t = m := by
  have hwp : wp (stationNwrite nevents new) (fun t => t = m) (fun _ _ => True) m := by
    cases new with
    | nil => exact absurd hfull (Nat.not_lt_zero _)
    | cons pe rest =>
        rw [List.length_cons] at hfull
        unfold stationNwrite
        rw [wp_bind, wp_get, wp_ite, if_pos hfull, wp_pure]
        exact ⟨rfl, rfl, trivial⟩
  exact hwp.crash ht

/-- **A batch that names an event twice breaks the list**: when its write is
complete the count is larger than the number of different events, and the repair
sees nothing to do. -/
theorem not_recovers_of_not_nodup {nevents : ℕ} {m : OutMem} {xs new : List ℕ}
    (h : IsList m.ev m.pl xs) (h0 : m.fix.start = 0) (hdup : ¬ new.Nodup)
    (hroom : new.length ≤ nevents - m.pl.cnt) :
    ¬ ∀ t ∈ crashStates (stationNwrite nevents new) m, OutputRecovers m xs new t := by
  intro hall
  obtain ⟨u, ys, hrep, hys⟩ := hall _ (final_mem_crashStates _ m)
  obtain ⟨hcnt, hstart⟩ := (wp_stationNwrite_cnt h0 hroom).2
  rw [repairOutputlist, if_pos hstart] at hrep
  obtain rfl : _ = u := congrArg Prod.snd (Option.some.inj hrep)
  have hlen : ys.length = xs.length + new.length := by
    rw [← hys.isList.cnt_eq, hcnt, h.cnt_eq]
  have hsub : ys ⊆ xs ++ new.dedup := by
    intro e he
    rcases hys.only e he with h | h
    · exact List.mem_append_left _ h
    · exact List.mem_append_right _ (List.mem_dedup.mpr h)
  have hle := (hys.isList.spans.nodup.subperm hsub).length_le
  have hlt : new.dedup.length < new.length := by
    refine lt_of_le_of_ne (List.dedup_sublist new).length_le fun heq => hdup ?_
    rw [← (List.dedup_sublist new).eq_of_length heq]
    exact List.nodup_dedup new
  rw [List.length_append] at hle
  omega

/-! ## The crash repair of an output list -/

/-- **Crash repair of an output list.**  `m` holds a list `xs` in priority order,
owned by the system; `new` are events of the attachment `att`.  Wherever the
process that writes them dies, the repair completes and leaves a repaired list: for
a single event always, for a batch exactly if it names no event twice (or the list
has no room for it and the call is refused). -/
theorem outputlist_recovers_iff (nevents : ℕ) (m : OutMem) (xs : List ℕ) (att : ℕ)
    (h : IsList m.ev m.pl xs) (hhigh : HighFirst m.ev.isHigh (m.pl.lasthigh, xs))
    (hown : ∀ e ∈ xs, m.ev.owner e = etSys) (h0 : m.fix.start = 0) :
    (∀ pe, m.ev.owner pe = att →
      ∀ t ∈ crashStates (stationWrite nevents pe) m, OutputRecovers m xs [pe] t) ∧
    (∀ new, (∀ e ∈ new, m.ev.owner e = att) →
      ((∀ t ∈ crashStates (stationNwrite nevents new) m, OutputRecovers m xs new t) ↔
        new.Nodup ∨ nevents - m.pl.cnt < new.length)) := by
  -- an event of the attachment is not one of the system
  have hdis : ∀ new : List ℕ, (∀ e ∈ new, m.ev.owner e = att) → ∀ e ∈ new, e ∉ xs := by
    intro new hatt e he hx
    have hneg : (att : ℤ) = -1 := (hatt e he).symm.trans (hown e hx)
    omega
  refine ⟨fun pe hpe t ht => ?_, fun new hnew => ⟨fun hall => ?_, fun hcond t ht => ?_⟩⟩
  · have hd := hdis [pe] (by simpa using hpe)
    exact ((wp_stationWrite h h0 hhigh.le (hd pe (by simp))).crash ht).recovers hhigh hown hd
  · by_contra hcon
    rw [not_or, not_lt] at hcon
    exact not_recovers_of_not_nodup h h0 hcon.1 hcon.2 hall
  · have hd := hdis new hnew
    by_cases hnd : new.Nodup
    · exact ((wp_stationNwrite h h0 hhigh.le hnd hd).crash ht).recovers hhigh hown hd
    · rw [crashStates_stationNwrite_full (hcond.resolve_left hnd) ht]
      exact ⟨m, _, by rw [repairOutputlist, if_pos h0],
        (Wrote.start h).repaired List.nil_prefix hhigh hown hd⟩

/-- A low event in the list and two events, of high and low priority, held by
attachment 0. -/
def outputExample : OutMem where
  ev := ⟨fun _ => none, fun e => if e = 0 then etSys else 0,
    fun e => { EventHeader.init with priority := if e = 1 then .high else .low }⟩
  pl := ⟨1, 0, 0, 0, 0, some 0, some 0⟩
  fix := FixOut.init

theorem outputExample_isList : IsList outputExample.ev outputExample.pl [0] :=
  ⟨rfl, .singleton _ 0⟩

theorem outputlist_recovers_example :
    [1, 2].Nodup ∧ ∀ t ∈ crashStates (stationNwrite 3 [1, 2]) outputExample,
      OutputRecovers outputExample [0] [1, 2] t := by
  have hnd : [1, 2].Nodup := by decide
  exact ⟨hnd, ((outputlist_recovers_iff 3 outputExample [0] 0 outputExample_isList
    ⟨by decide, by decide, by decide⟩ (by decide) rfl).2 [1, 2] (by decide)).mpr (Or.inl hnd)⟩

/-- Naming one event twice: the complete write leaves the count 3 on a list of two
events. -/
theorem outputlist_duplicate_not_recovered :
    ¬ ∀ t ∈ crashStates (stationNwrite 3 [1, 1]) outputExample,
      OutputRecovers outputExample [0] [1, 1] t :=
  not_recovers_of_not_nodup outputExample_isList rfl (by decide) (by decide)

end EventTransfer
