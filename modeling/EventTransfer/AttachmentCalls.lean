import EventTransfer.AttachmentTables
import EventTransfer.Lib.Tally

/-!
# What an attach and a detach do to the tables

* `AttachmentTables.attached`, `detached` — the tables after a whole call.
* `Consistent.attached`, `Consistent.detached` — they are consistent again.
-/

namespace EventTransfer

open StoreProgram Prog FenceState Tally

namespace AttachmentTables

variable {c : TableSizes} {s t : AttachmentTables} {proc : Option ℕ} {a b st p : ℕ}

/-! ## What a whole call does -/

/-- A new attachment. -/
def attached (s : AttachmentTables) (proc : Option ℕ) (st a : ℕ) : AttachmentTables where
  attach := Function.update s.attach a
    { AttachEntry.init with num := some a, proc := proc, stat := some st, active := true }
  stat := Function.update s.stat st
    { s.stat st with
      nattachments := (s.stat st).nattachments + 1
      att := Function.update (s.stat st).att a true
      status := .active }
  atts := proc.elim s.atts fun p => Function.update s.atts p
    ⟨(s.atts p).nattachments + 1, Function.update (s.atts p).att a true⟩
  opened := s.opened
  nattachments := s.nattachments + 1

/-- An attachment is gone. -/
def detached (s : AttachmentTables) (proc : Option ℕ) (a st : ℕ) : AttachmentTables where
  attach := Function.update s.attach a { s.attach a with num := none, active := false }
  stat := Function.update s.stat st
    { s.stat st with
      status := if (s.stat st).nattachments = 1 ∧ st ≠ 0 then .idle else (s.stat st).status
      nattachments := (s.stat st).nattachments - 1
      att := Function.update (s.stat st).att a false }
  atts := proc.elim s.atts fun p => Function.update s.atts p
    ⟨(s.atts p).nattachments - 1, Function.update (s.atts p).att a false⟩
  opened := s.opened
  nattachments := s.nattachments - 1

theorem final_attachStores (s : AttachmentTables) (proc : Option ℕ) (st a : ℕ) :
    final (attachStores proc st a) s = s.attached proc st a := by
  cases proc <;>
    simp [attachStores, etInitAttachment, setEntry, setStation, setProc, addAttachments, attached,
      AttStation.setAtt, ProcAtts.setAtt, AttachEntry.init]

theorem final_detachStores (s : AttachmentTables) (proc : Option ℕ) (a st : ℕ) :
    final (detachStores proc a st) s = s.detached proc a st := by
  by_cases hlast : (s.stat st).nattachments = 1 ∧ st ≠ 0 <;> cases proc <;>
    simp [detachStores, setEntry, setStation, setProc, addAttachments, detached,
      AttStation.setAtt, ProcAtts.setAtt, when, hlast, sub_eq_add_neg]

theorem attached_stat_self : (s.attached proc st a).stat st =
    { s.stat st with
      nattachments := (s.stat st).nattachments + 1
      att := Function.update (s.stat st).att a true
      status := .active } := Function.update_self ..

theorem attached_stat_of_ne {x : ℕ} (h : x ≠ st) : (s.attached proc st a).stat x = s.stat x :=
  Function.update_of_ne h ..

theorem attached_atts_self : (s.attached (some p) st a).atts p =
    ⟨(s.atts p).nattachments + 1, Function.update (s.atts p).att a true⟩ := Function.update_self ..

theorem attached_atts_of_ne {q : ℕ} (h : proc ≠ some q) :
    (s.attached proc st a).atts q = s.atts q := by
  cases proc with
  | none => rfl
  | some p => exact Function.update_of_ne (fun heq => h (congrArg some heq.symm)) ..

theorem detached_stat_self : (s.detached proc a st).stat st =
    { s.stat st with
      status := if (s.stat st).nattachments = 1 ∧ st ≠ 0 then .idle else (s.stat st).status
      nattachments := (s.stat st).nattachments - 1
      att := Function.update (s.stat st).att a false } := Function.update_self ..

theorem detached_stat_of_ne {x : ℕ} (h : x ≠ st) : (s.detached proc a st).stat x = s.stat x :=
  Function.update_of_ne h ..

theorem detached_atts_self : (s.detached (some p) a st).atts p =
    ⟨(s.atts p).nattachments - 1, Function.update (s.atts p).att a false⟩ := Function.update_self ..

theorem detached_atts_of_ne {q : ℕ} (h : proc ≠ some q) :
    (s.detached proc a st).atts q = s.atts q := by
  cases proc with
  | none => rfl
  | some p => exact Function.update_of_ne (fun heq => h (congrArg some heq.symm)) ..

/-! ## Counting -/

/-- One element of an array is set. -/
theorem countAtts_update {att : ℕ → Bool} (ha : a < c.nattachments) (x : Bool) :
    countAtts c (Function.update att a x) + (if att a = true then 1 else 0) =
      countAtts c att + if x = true then 1 else 0 := by
  have hcomp : (fun i => if Function.update att a x i = true then 1 else 0) =
      Function.update (fun i => if att i = true then 1 else 0) a (if x = true then 1 else 0) := by
    ext i
    rw [Function.update_apply, Function.update_apply]
    split <;> rfl
  have hsum := sum_update (Finset.mem_range.mpr ha) (fun i => if att i = true then 1 else 0)
    (if x = true then 1 else 0)
  unfold countAtts
  rw [countP_range, countP_range, hcomp]
  exact_mod_cast hsum

theorem countAtts_set {att : ℕ → Bool} (ha : a < c.nattachments) (h : att a = false) :
    countAtts c (Function.update att a true) = countAtts c att + 1 := by
  simpa [h] using @countAtts_update c a att ha true

theorem countAtts_clear {att : ℕ → Bool} (ha : a < c.nattachments) (h : att a = true) :
    countAtts c (Function.update att a false) = countAtts c att - 1 := by
  have hcount := @countAtts_update c a att ha false
  simp only [h, if_true, Bool.false_eq_true, if_false, add_zero] at hcount
  omega

theorem countAtts_congr {att att' : ℕ → Bool} (h : ∀ a < c.nattachments, att a = att' a) :
    countAtts c att = countAtts c att' := by
  unfold countAtts
  rw [List.countP_congr fun a ha => by rw [h a (List.mem_range.mp ha)]]

theorem countAtts_nonneg (att : ℕ → Bool) : 0 ≤ countAtts c att := Int.natCast_nonneg _

/-- Some element is set. -/
theorem countAtts_pos_iff {att : ℕ → Bool} :
    0 < countAtts c att ↔ ∃ a < c.nattachments, att a = true := by
  unfold countAtts
  rw [Int.natCast_pos, List.countP_pos_iff]
  simp

/-- **The stations' counts add up** to the number of attachments. -/
theorem sum_countAtts
    (hused : ∀ a, s.Used a → a < c.nattachments ∧ ∃ st < c.nstations, (s.attach a).stat = some st)
    (hstat : ∀ st < c.nstations, ∀ a,
      (s.stat st).att a = true ↔ s.Used a ∧ (s.attach a).stat = some st) :
    ((List.range c.nstations).map fun st => countAtts c (s.stat st).att).sum =
      countAtts c fun a => decide (s.Used a) := by
  have hone : ∀ a, ∑ st ∈ Finset.range c.nstations, (if (s.stat st).att a = true then 1 else 0) =
      if s.Used a then 1 else 0 := by
    intro a
    by_cases ha : s.Used a
    · obtain ⟨-, st, hst, hthere⟩ := hused a ha
      rw [if_pos ha, Finset.sum_eq_single_of_mem st (Finset.mem_range.mpr hst) fun x hx hne => ?_]
      · rw [if_pos ((hstat st hst a).mpr ⟨ha, hthere⟩)]
      · refine if_neg fun hatt => hne ?_
        have hx' := ((hstat x (Finset.mem_range.mp hx) a).mp hatt).2
        exact Option.some.inj (hx'.symm.trans hthere)
    · rw [if_neg ha]
      refine Finset.sum_eq_zero fun x hx => if_neg fun hatt => ha ?_
      exact ((hstat x (Finset.mem_range.mp hx) a).mp hatt).1
  have hsum : (∑ st ∈ Finset.range c.nstations, countAtts c (s.stat st).att) =
      countAtts c fun a => decide (s.Used a) := by
    unfold countAtts
    simp only [countP_range, decide_eq_true_eq]
    push_cast
    rw [Finset.sum_comm]
    exact Finset.sum_congr rfl fun a _ => by exact_mod_cast congrArg (Nat.cast : ℕ → ℤ) (hone a)
  rw [← hsum]
  rfl

/-! ## Whole calls keep the tables consistent -/

theorem Consistent.attached (hs : s.Consistent c) (ha : a < c.nattachments)
    (hfree : (s.attach a).num = none) (hst : st < c.nstations)
    (hlimit : ¬ (0 < (s.stat st).userMode ∧ (s.stat st).userMode ≤ (s.stat st).nattachments))
    (hproc : ∀ p, proc = some p → p < c.nprocesses ∧ s.opened p = true) :
    (s.attached proc st a).Consistent c := by
  have hunused : ¬ s.Used a := not_not.mpr hfree
  have hself : (s.attached proc st a).attach a =
      { AttachEntry.init with num := some a, proc := proc, stat := some st, active := true } :=
    Function.update_self ..
  have hother : ∀ b ≠ a, (s.attached proc st a).attach b = s.attach b := fun b hb =>
    Function.update_of_ne hb ..
  have hused : ∀ b, (s.attached proc st a).Used b ↔ b = a ∨ s.Used b := by
    intro b
    unfold Used
    rcases eq_or_ne b a with rfl | hb
    · simp [hself]
    · simp [hother b hb, hb]
  have hstatfalse : ∀ x < c.nstations, (s.stat x).att a = false := fun x hx =>
    Bool.eq_false_iff.mpr fun h => hunused ((hs.stat x hx a).mp h).1
  have hprocfalse : ∀ q < c.nprocesses, (s.atts q).att a = false := fun q hq =>
    Bool.eq_false_iff.mpr fun h => hunused ((hs.proc q hq a).mp h).1
  have hpassive : decide (s.Used a) = false := decide_eq_false hunused
  refine ⟨fun b hb => ?_, fun b hb => ?_, fun x hx b => ?_, fun q hq b => ?_, fun x hx => ?_,
    fun q hq => ?_, ?_, ?_, fun x hx hx0 => ?_, fun x hx hmode => ?_⟩
  · rcases eq_or_ne b a with rfl | hba
    · rw [hself]
      exact ⟨ha, rfl, rfl, ⟨st, hst, rfl⟩, hproc⟩
    · rw [hother b hba]
      exact hs.used b (((hused b).mp hb).resolve_left hba)
  · rw [hused, not_or] at hb
    rw [hother b hb.1]
    exact hs.free b hb.2
  · rcases eq_or_ne b a with rfl | hba
    · rw [hself]
      rcases eq_or_ne x st with rfl | hxs
      · simp [attached_stat_self, hused]
      · have hne : some st ≠ some x := fun h => hxs (Option.some.inj h).symm
        simp [attached_stat_of_ne hxs, hstatfalse x hx, hne]
    · have hatt : ((s.attached proc st a).stat x).att b = (s.stat x).att b := by
        rcases eq_or_ne x st with rfl | hxs
        · rw [attached_stat_self]
          exact Function.update_of_ne hba ..
        · rw [attached_stat_of_ne hxs]
      rw [hatt, hother b hba, hused, hs.stat x hx b]
      simp [hba]
  · rcases eq_or_ne b a with rfl | hba
    · rw [hself]
      rcases eq_or_ne proc (some q) with rfl | hpq
      · simp [attached_atts_self, hused]
      · simp [attached_atts_of_ne hpq, hprocfalse q hq, hpq]
    · have hatt : ((s.attached proc st a).atts q).att b = (s.atts q).att b := by
        rcases eq_or_ne proc (some q) with rfl | hpq
        · rw [attached_atts_self]
          exact Function.update_of_ne hba ..
        · rw [attached_atts_of_ne hpq]
      rw [hatt, hother b hba, hused, hs.proc q hq b]
      simp [hba]
  · rcases eq_or_ne x st with rfl | hxs
    · rw [attached_stat_self]
      dsimp only
      rw [countAtts_set ha (hstatfalse x hx), hs.statCount x hx]
    · rw [attached_stat_of_ne hxs]
      exact hs.statCount x hx
  · rcases eq_or_ne proc (some q) with rfl | hpq
    · rw [attached_atts_self]
      dsimp only
      rw [countAtts_set ha (hprocfalse q hq), hs.procCount q hq]
    · rw [attached_atts_of_ne hpq]
      exact hs.procCount q hq
  · have hfun : (fun b => decide ((s.attached proc st a).Used b)) =
        Function.update (fun b => decide (s.Used b)) a true := by
      funext b
      rw [Function.update_apply]
      split
      case isTrue hba => exact decide_eq_true ((hused b).mpr (.inl hba))
      case isFalse hba => exact decide_eq_decide.mpr ((hused b).trans (or_iff_right hba))
    rw [hfun, countAtts_set ha hpassive]
    exact congrArg (· + 1) hs.count
  · rcases eq_or_ne 0 st with rfl | h0
    · rw [attached_stat_self]
    · rw [attached_stat_of_ne h0]
      exact hs.grandCentral
  · rcases eq_or_ne x st with rfl | hxs
    · rw [attached_stat_self]
      have hnonneg : 0 ≤ (s.stat x).nattachments := hs.statCount x hx ▸ countAtts_nonneg _
      exact ⟨fun _ => by dsimp only; omega, fun _ => rfl⟩
    · rw [attached_stat_of_ne hxs]
      exact hs.status x hx hx0
  · rcases eq_or_ne x st with rfl | hxs
    · rw [attached_stat_self] at hmode ⊢
      dsimp only at hmode ⊢
      omega
    · rw [attached_stat_of_ne hxs] at hmode ⊢
      exact hs.limit x hx hmode

theorem Consistent.detached (hs : s.Consistent c) (hused : s.Used a)
    (hstat : (s.attach a).stat = some st) (hproc : (s.attach a).proc = proc) :
    (s.detached proc a st).Consistent c := by
  obtain ⟨ha, -, -, ⟨st', hst, hst'⟩, hopen⟩ := hs.used a hused
  obtain rfl : st' = st := Option.some.inj (hst'.symm.trans hstat)
  have hself : (s.detached proc a st').attach a =
      { s.attach a with num := none, active := false } := Function.update_self ..
  have hother : ∀ b ≠ a, (s.detached proc a st').attach b = s.attach b := fun b hb =>
    Function.update_of_ne hb ..
  have hgone : ¬ (s.detached proc a st').Used a := by
    unfold Used
    rw [hself]
    exact not_not.mpr rfl
  have husedIff : ∀ b, (s.detached proc a st').Used b ↔ b ≠ a ∧ s.Used b := by
    intro b
    rcases eq_or_ne b a with rfl | hb
    · exact ⟨fun h => absurd h hgone, fun h => absurd rfl h.1⟩
    · unfold Used
      rw [hother b hb]
      exact ⟨fun h => ⟨hb, h⟩, And.right⟩
  have htrue : (s.stat st').att a = true := (hs.stat st' hst a).mpr ⟨hused, hstat⟩
  have hstatfalse : ∀ x < c.nstations, x ≠ st' → (s.stat x).att a = false := fun x hx hne =>
    Bool.eq_false_iff.mpr fun h =>
      hne (Option.some.inj (((hs.stat x hx a).mp h).2.symm.trans hstat))
  have hproctrue : ∀ q, proc = some q → (s.atts q).att a = true := fun q hq =>
    (hs.proc q (hopen q (hproc.trans hq)).1 a).mpr ⟨hused, hproc.trans hq⟩
  refine ⟨fun b hb => ?_, fun b hb => ?_, fun x hx b => ?_, fun q hq b => ?_, fun x hx => ?_,
    fun q hq => ?_, ?_, ?_, fun x hx hx0 => ?_, fun x hx hmode => ?_⟩
  · obtain ⟨hba, hb⟩ := (husedIff b).mp hb
    rw [hother b hba]
    exact hs.used b hb
  · rcases eq_or_ne b a with rfl | hba
    · rw [hself]
    · rw [hother b hba]
      exact hs.free b fun h => hb ((husedIff b).mpr ⟨hba, h⟩)
  · rcases eq_or_ne b a with rfl | hba
    · refine ⟨fun h => ?_, fun h => absurd h.1 hgone⟩
      rcases eq_or_ne x st' with rfl | hxs
      · rw [detached_stat_self] at h
        simp at h
      · rw [detached_stat_of_ne hxs, hstatfalse x hx hxs] at h
        cases h
    · have hatt : ((s.detached proc a st').stat x).att b = (s.stat x).att b := by
        rcases eq_or_ne x st' with rfl | hxs
        · rw [detached_stat_self]
          exact Function.update_of_ne hba ..
        · rw [detached_stat_of_ne hxs]
      rw [hatt, hother b hba, husedIff, hs.stat x hx b]
      simp [hba]
  · rcases eq_or_ne b a with rfl | hba
    · refine ⟨fun h => ?_, fun h => absurd h.1 hgone⟩
      rcases eq_or_ne proc (some q) with rfl | hpq
      · rw [detached_atts_self] at h
        simp at h
      · rw [detached_atts_of_ne hpq, hs.proc q hq] at h
        exact absurd (hproc.symm.trans h.2) hpq
    · have hatt : ((s.detached proc a st').atts q).att b = (s.atts q).att b := by
        rcases eq_or_ne proc (some q) with rfl | hpq
        · rw [detached_atts_self]
          exact Function.update_of_ne hba ..
        · rw [detached_atts_of_ne hpq]
      rw [hatt, hother b hba, husedIff, hs.proc q hq b]
      simp [hba]
  · rcases eq_or_ne x st' with rfl | hxs
    · rw [detached_stat_self]
      dsimp only
      rw [countAtts_clear ha htrue, hs.statCount x hx]
    · rw [detached_stat_of_ne hxs]
      exact hs.statCount x hx
  · rcases eq_or_ne proc (some q) with rfl | hpq
    · rw [detached_atts_self]
      dsimp only
      rw [countAtts_clear ha (hproctrue q rfl), hs.procCount q hq]
    · rw [detached_atts_of_ne hpq]
      exact hs.procCount q hq
  · have hfun : (fun b => decide ((s.detached proc a st').Used b)) =
        Function.update (fun b => decide (s.Used b)) a false := by
      funext b
      rw [Function.update_apply]
      split
      case isTrue hba => exact decide_eq_false (hba ▸ hgone)
      case isFalse hba => exact decide_eq_decide.mpr ((husedIff b).trans (and_iff_right hba))
    rw [hfun, countAtts_clear ha (decide_eq_true hused)]
    exact congrArg (· - 1) hs.count
  · rcases eq_or_ne 0 st' with rfl | h0
    · rw [detached_stat_self, if_neg (fun h => h.2 rfl)]
      exact hs.grandCentral
    · rw [detached_stat_of_ne h0]
      exact hs.grandCentral
  · rcases eq_or_ne x st' with rfl | hxs
    · have hpos : 0 < (s.stat x).nattachments := by
        rw [hs.statCount x hx, countAtts_pos_iff]
        exact ⟨a, ha, htrue⟩
      have hactive := (hs.status x hx hx0).mpr hpos
      rw [detached_stat_self]
      dsimp only
      by_cases hlast : (s.stat x).nattachments = 1
      · rw [if_pos ⟨hlast, hx0⟩]
        exact ⟨fun h => StatStatus.noConfusion h, fun h => by omega⟩
      · rw [if_neg fun h => hlast h.1]
        exact ⟨fun _ => by omega, fun _ => hactive⟩
    · rw [detached_stat_of_ne hxs]
      exact hs.status x hx hx0
  · rcases eq_or_ne x st' with rfl | hxs
    · rw [detached_stat_self] at hmode ⊢
      have hle := hs.limit x hx hmode
      dsimp only
      omega
    · rw [detached_stat_of_ne hxs] at hmode ⊢
      exact hs.limit x hx hmode

end AttachmentTables

end EventTransfer
