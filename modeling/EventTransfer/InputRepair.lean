import EventTransfer.InputList

/-!
# The repair of an input list

`et_repair_inputlist` is run on an input list whose reader died with the list
locked.  The reader has noted the list's first event; the repair walks from there to
the list's last event, gives every event it meets back to the system and counts.

`ReadCrash.recovers` says on which memories this is right: those in which the links
still lead from the noted first event to the last one.
-/

namespace EventTransfer

open LinkedHeap StoreProgram StoreProgram.Prog

/-- **A repaired input list** `ys`: a well-formed list of events of `xs` only, all of
them owned by the system; the events of `xs` that are not in it belong to `att`. -/
structure RepairedInput (att : ℤ) (xs ys : List ℕ) (u : InMem) : Prop where
  isList : IsList u.ev u.pl ys
  sub : ys ⊆ xs
  owned : ∀ e ∈ ys, u.ev.owner e = etSys
  taken : ∀ e ∈ xs, e ∉ ys → u.ev.owner e = att

/-- After the death `t` the repair stops and leaves a repaired list. -/
def InputRecovers (att : ℤ) (xs : List ℕ) (t : InMem) : Prop :=
  ∃ fuel u ys, repairInputlist fuel t = some (.ok, u) ∧ RepairedInput att xs ys u

/-- The repair's loop along a list: its events are given back and counted. -/
theorem repairInputLoop_eq {last p : Option ℕ} {n count : ℕ} {t : InMem} {ys : List ℕ}
    (hne : ys ≠ []) (hl : Linked t.ev.next ys) (hd : ys.Nodup) (hp : p = ys.head?)
    (hlast : last = ys.getLast?) (hn : ys.length ≤ n) :
    repairInputLoop last n p t count =
      some ({ t with ev := t.ev.setOwners ys etSys }, count + ys.length) := by
  induction ys generalizing n p t count with
  | nil => exact absurd rfl hne
  | cons e ys ih =>
      obtain ⟨n, rfl⟩ : ∃ k, n = k + 1 := ⟨n - 1, by simp at hn; omega⟩
      rw [hp, List.head?_cons]
      unfold repairInputLoop
      cases ys with
      | nil =>
          rw [if_pos (by simp [hlast])]
          rfl
      | cons b ys =>
          rw [linked_cons_cons] at hl
          have hlast' : last = (b :: ys).getLast? := by simpa using hlast
          have hee : some e ≠ last := by
            rw [hlast']
            exact fun h => (List.nodup_cons.mp hd).1 (List.mem_of_getLast? h.symm)
          have hrec := @ih (t.ev.next e) n (count + 1) ⟨t.ev.setOwner e etSys, t.pl, t.fix⟩
            (List.cons_ne_nil b ys) hl.2 (List.nodup_cons.mp hd).2 hl.1 hlast' (by simpa using hn)
          rw [if_neg hee]
          refine hrec.trans ?_
          rw [Nat.add_assoc count, Nat.add_comm 1]
          rfl

/-- What the loop does not change, and that it counts at least one event. -/
theorem repairInputLoop_frame {last p : Option ℕ} {n count : ℕ} {t : InMem}
    {r : InMem × ℕ} (h : repairInputLoop last n p t count = some r) :
    r.1.pl = t.pl ∧ r.1.ev.next = t.ev.next ∧ count < r.2 ∧ last ≠ none := by
  induction n generalizing p t count with
  | zero => exact nomatch h
  | succ n ih =>
      cases p with
      | none => exact nomatch h
      | some pe =>
          unfold repairInputLoop at h
          split at h
          · rename_i hlast
            obtain rfl := Option.some.inj h
            exact ⟨rfl, rfl, Nat.lt_succ_self _, by simp [← hlast]⟩
          · obtain ⟨hpl, hnext, hcount, hlast⟩ := ih h
            exact ⟨hpl, hnext, by omega, hlast⟩

/-- **What a dead reader leaves.**  Either the list is whole, and the repair notes
say that the read has not begun or is complete; or it is being read, and from the
noted first event the links lead through `ys` to the last event. -/
inductive ReadCrash (att : ℤ) (xs : List ℕ) (t : InMem) : Prop
  | whole (ys : List ℕ) (repaired : RepairedInput att xs ys t)
      (note : t.fix.first = none ∨ (t.pl.cnt : ℤ) = t.fix.cnt - t.fix.num)
  | reading (ys : List ℕ) (ne : ys ≠ []) (first : t.fix.first = ys.head?)
      (cnt_ne : (t.pl.cnt : ℤ) ≠ t.fix.cnt - t.fix.num) (linked : Linked t.ev.next ys)
      (nodup : ys.Nodup) (last : t.pl.lastevent = ys.getLast?) (sub : ys ⊆ xs)
      (taken : ∀ e ∈ xs, e ∉ ys → t.ev.owner e = att)

/-- **The repair stops and is right on whatever a dead reader leaves.** -/
theorem ReadCrash.recovers {att : ℤ} {xs : List ℕ} {t : InMem} (h : ReadCrash att xs t) :
    InputRecovers att xs t := by
  cases h with
  | whole ys repaired note =>
      cases hf : t.fix.first with
      | none =>
          refine ⟨0, t, ys, ?_, repaired⟩
          rw [repairInputlist, hf]
      | some first =>
          have hcnt := note.resolve_left (by simp [hf])
          refine ⟨0, { t with fix.first := none }, ys, ?_,
            ⟨repaired.isList, repaired.sub, repaired.owned, repaired.taken⟩⟩
          rw [repairInputlist, hf]
          exact if_pos hcnt
  | reading ys ne first cnt_ne linked nodup last sub taken =>
      obtain ⟨e, hfirst⟩ : ∃ e, ys.head? = some e :=
        ⟨ys.head ne, List.head?_eq_some_head ne⟩
      have hloop := @repairInputLoop_eq t.pl.lastevent (some e) ys.length 0
        ⟨t.ev, { t.pl with firstevent := some e }, t.fix⟩ ys ne linked nodup hfirst.symm last le_rfl
      refine ⟨ys.length, ⟨t.ev.setOwners ys etSys,
          { t.pl with firstevent := some e, cnt := ys.length }, { t.fix with first := none }⟩, ys,
        ?_, ⟨⟨rfl, ?_⟩, sub, ?_, ?_⟩⟩
      · rw [repairInputlist, first, hfirst]
        simp only [if_neg cnt_ne, hloop, Option.map_some, Nat.zero_add]
      · rw [Events.setOwners_next]
        exact ⟨linked, nodup, fun _ => hfirst.symm, fun _ => last⟩
      · intro a ha
        rw [Events.setOwners_owner, if_pos ha]
      · intro a ha hn
        rw [Events.setOwners_owner, if_neg hn]
        exact taken a ha hn

/-- What a repair that stops has found: the events from the noted first event to the
last one, in the links as they were. -/
theorem InputRecovers.found {att : ℤ} {xs : List ℕ} {t : InMem} {first : ℕ}
    (h : InputRecovers att xs t) (hfirst : t.fix.first = some first)
    (hcnt : (t.pl.cnt : ℤ) ≠ t.fix.cnt - t.fix.num) :
    ∃ ys, ys ≠ [] ∧ Linked t.ev.next ys ∧ ys.Nodup ∧ ys.head? = some first ∧
      ys.getLast? = t.pl.lastevent ∧ ys ⊆ xs ∧ t.pl.lastevent ≠ none := by
  obtain ⟨fuel, u, ys, hrep, hys⟩ := h
  rw [repairInputlist, hfirst] at hrep
  simp only [if_neg hcnt] at hrep
  obtain ⟨r, hloop, hr⟩ := Option.map_eq_some_iff.mp hrep
  obtain ⟨hpl, hnext, hcount, hlast⟩ := repairInputLoop_frame hloop
  obtain rfl : _ = u := congrArg Prod.snd hr
  have hlen : r.2 = ys.length := hys.isList.cnt_eq
  have hne : ys ≠ [] := by
    rintro rfl
    simp at hlen
    omega
  have hs := hys.isList.spans
  refine ⟨ys, hne, ?_, hs.nodup, ?_, ?_, hys.sub, hlast⟩
  · rw [← hnext]
    exact hs.linked
  · rw [← hs.first_eq hne]
    show r.1.pl.firstevent = _
    rw [hpl]
  · rw [← hs.last_eq hne]
    show r.1.pl.lastevent = _
    rw [hpl]

end EventTransfer
