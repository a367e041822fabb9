import EventTransfer.AttachmentRepair

/-!
# Tables that a dead process left

A process that dies in an attach or a detach leaves tables that differ from consistent ones at one
attachment, at its station and at the process only (`AttachmentTables.Near`).

* `StationRight` — the count and the status of a station after the clean-up.
* `Near.good_iff` — the clean-up repairs the tables if it repairs that attachment and that station.
-/

namespace EventTransfer

open StoreProgram Prog FenceState Tally

namespace AttachmentTables

variable {c : TableSizes} {r s t u : AttachmentTables} {a b i st p q x : ℕ}

/-! ## What is to be left -/

/-- **Exactly the attachments of the process are gone.** -/
structure Without (p : ℕ) (r u : AttachmentTables) : Prop where
  used : ∀ a, u.Used a ↔ r.Used a ∧ (r.attach a).proc ≠ some p
  same : ∀ a, u.Used a → u.attach a = r.attach a
  opened : u.opened = Function.update r.opened p false

/-- The count and the status of a station are what its array says. -/
def StationRight (c : TableSizes) (u : AttachmentTables) (x : ℕ) : Prop :=
  (u.stat x).nattachments = countAtts c (u.stat x).att ∧
    (x ≠ 0 → ((u.stat x).status = .active ↔ 0 < countAtts c (u.stat x).att))

/-- The number of attachments to a station that other processes have. -/
def others (c : TableSizes) (r : AttachmentTables) (p x : ℕ) : ℤ :=
  countAtts c fun a => (r.stat x).att a && !(r.atts p).att a

/-- The number of those that the process has. -/
def own (c : TableSizes) (r : AttachmentTables) (p x : ℕ) : ℤ :=
  countAtts c fun a => (r.stat x).att a && (r.atts p).att a

/-- The number of attachments to a station that the clean-up detaches. -/
def toDetach (c : TableSizes) (t : AttachmentTables) (p x : ℕ) : ℤ :=
  countAtts c ((t.etFixAttachments c).mineAt p x)

theorem others_add_own (c : TableSizes) (r : AttachmentTables) (p x : ℕ) :
    others c r p x + own c r p x = countAtts c (r.stat x).att := by
  unfold others own countAtts
  have hsplit := List.countP_eq_countP_filter_add (List.range c.nattachments) (r.stat x).att
    fun a => (r.atts p).att a
  rw [List.countP_filter, List.countP_filter] at hsplit
  rw [hsplit]
  push_cast
  rw [add_comm]

/-! ## A station after the clean-up -/

section Station

variable (hgc : x = 0 → (t.stat x).status = .active) (hx : x < c.nstations)

/-- The count and the status that the clean-up leaves. -/
theorem emptied_stat (c : TableSizes) (t : AttachmentTables) (p x : ℕ) :
    ((t.emptied c p).stat x).nattachments = (t.stat x).nattachments - toDetach c t p x ∧
      (x ≠ 0 → 1 ≤ (t.stat x).nattachments → (t.stat x).nattachments ≤ toDetach c t p x →
        ((t.emptied c p).stat x).status = .idle) ∧
      (¬ (x ≠ 0 ∧ 1 ≤ (t.stat x).nattachments ∧ (t.stat x).nattachments ≤ toDetach c t p x) →
        ((t.emptied c p).stat x).status = (t.stat x).status) ∧
      ((t.emptied c p).stat x).userMode = (t.stat x).userMode := by
  have hwiped := etFixAttachments_wiped c t
  have hemptied := detachAll_emptied c (t.etFixAttachments c) p
  have hnatts := hemptied.natts x
  have hidle := hemptied.idle x
  have hstatus := hemptied.status x
  have hmode := hemptied.userMode x
  rw [hwiped.stat] at hnatts hidle hstatus hmode
  exact ⟨hnatts, hidle, hstatus, hmode⟩

include hx in
theorem stationRight_iff {m : ℤ} (hm : countAtts c ((t.emptied c p).stat x).att = m) :
    StationRight c (t.cleanUp c p) x ↔
      (((t.emptied c p).stat x).status = .active ∨
        (t.stat x).nattachments - toDetach c t p x = m) ∧
      (x ≠ 0 → (((t.emptied c p).stat x).status = .active ↔ 0 < m)) := by
  obtain ⟨hatt, hstatus, -⟩ := cleanUp_stat c t p x
  unfold StationRight
  rw [cleanUp_statCount, hatt, hstatus, hm, ← (emptied_stat c t p x).1]
  by_cases hactive : ((t.emptied c p).stat x).status = .active
  · rw [if_pos ⟨hx, hactive⟩]
    exact and_congr_left fun _ => ⟨fun _ => .inl hactive, fun _ => rfl⟩
  · rw [if_neg fun h => hactive h.2]
    exact and_congr_left fun _ => ⟨.inr, fun h => h.resolve_left hactive⟩

include hx hgc in
/-- GRAND_CENTRAL stays active, and is counted again. -/
theorem stationRight_grandCentral (h0 : x = 0) : StationRight c (t.cleanUp c p) x := by
  rw [stationRight_iff hx rfl]
  have hstatus := (emptied_stat c t p x).2.2.1 fun h => h.1 h0
  exact ⟨.inl (hstatus.trans (hgc h0)), fun h => absurd h0 h⟩

include hx hgc in
/-- A station that counts the attachments that the clean-up keeps and those that it detaches. -/
theorem stationRight_of_eq {m : ℤ} (hm : countAtts c ((t.emptied c p).stat x).att = m)
    (hcount : (t.stat x).nattachments = m + toDetach c t p x)
    (hactive : 0 < m → (t.stat x).status = .active)
    (hidle : m + toDetach c t p x = 0 → x ≠ 0 → (t.stat x).status ≠ .active) :
    StationRight c (t.cleanUp c p) x := by
  by_cases h0 : x = 0
  · exact stationRight_grandCentral hgc hx h0
  have hm0 : 0 ≤ m := hm ▸ countAtts_nonneg _
  have hk0 : 0 ≤ toDetach c t p x := countAtts_nonneg _
  obtain ⟨-, hgoes, hstays, -⟩ := emptied_stat c t p x
  rw [stationRight_iff hx hm]
  refine ⟨.inr (by omega), fun _ => ?_⟩
  by_cases hpos : 0 < m
  · rw [hstays fun h => by omega]
    exact ⟨fun _ => hpos, fun _ => hactive hpos⟩
  · refine ⟨fun h => ?_, fun h => absurd h hpos⟩
    by_cases hk : 1 ≤ toDetach c t p x
    · rw [hgoes h0 (by omega) (by omega)] at h
      cases h
    · rw [hstays fun h => by omega] at h
      exact absurd h (hidle (by omega) h0)

include hx in
/-- A station that has counted one attachment too many. -/
theorem stationRight_more_iff {m : ℤ} (h0 : x ≠ 0)
    (hm : countAtts c ((t.emptied c p).stat x).att = m)
    (hcount : (t.stat x).nattachments = m + toDetach c t p x + 1)
    (hactive : 0 < m → (t.stat x).status = .active) :
    StationRight c (t.cleanUp c p) x ↔ 1 ≤ m := by
  have hm0 : 0 ≤ m := hm ▸ countAtts_nonneg _
  obtain ⟨-, -, hstays, -⟩ := emptied_stat c t p x
  rw [stationRight_iff hx hm, hstays fun h => by omega]
  constructor
  · rintro ⟨hactive | hcount', hiff⟩
    · exact (hiff h0).mp hactive
    · omega
  · exact fun h => ⟨.inl (hactive h), fun _ => ⟨fun _ => h, fun _ => hactive h⟩⟩

include hx in
/-- A station that has counted one too few. -/
theorem stationRight_less_iff {m : ℤ} (h0 : x ≠ 0)
    (hm : countAtts c ((t.emptied c p).stat x).att = m)
    (hcount : (t.stat x).nattachments = m + toDetach c t p x - 1)
    (hone : 1 ≤ toDetach c t p x) (hactive : 0 < m → (t.stat x).status = .active) :
    StationRight c (t.cleanUp c p) x ↔ 2 ≤ m := by
  have hm0 : 0 ≤ m := hm ▸ countAtts_nonneg _
  obtain ⟨-, hgoes, hstays, -⟩ := emptied_stat c t p x
  rw [stationRight_iff hx hm]
  constructor
  · rintro ⟨hstatus, hiff⟩
    by_contra hfew
    by_cases hpos : 0 < m
    · have hidle := hgoes h0 (by omega) (by omega)
      have hstill := (hiff h0).mpr hpos
      rw [hidle] at hstill
      cases hstill
    · rcases hstatus with hstatus | hstatus
      · exact hpos ((hiff h0).mp hstatus)
      · omega
  · intro hmany
    have hstatus := hstays fun h => by omega
    have hstill := hstatus.trans (hactive (by omega))
    exact ⟨.inl hstill, fun _ => ⟨fun _ => by omega, fun _ => hstill⟩⟩

end Station

/-! ## The whole tables -/

/-- **What the clean-up does**: the attachments of the process are in no table any more, and all counts
are right. -/
structure CleanedUp (c : TableSizes) (p : ℕ) (r u : AttachmentTables) : Prop where
  without : Without p r u
  free : ∀ a, ¬ u.Used a → (u.attach a).active = false
  att : ∀ x < c.nstations, ∀ a, (u.stat x).att a = ((r.stat x).att a && !(r.atts p).att a)
  mine : u.atts p = .init
  atts : ∀ q < c.nprocesses, q ≠ p → ∀ a, (u.atts q).att a = (r.atts q).att a
  procCount : ∀ q < c.nprocesses, q ≠ p → (u.atts q).nattachments = countAtts c (u.atts q).att
  right : ∀ x < c.nstations, StationRight c u x
  grandCentral : (u.stat 0).status = .active
  userMode : ∀ x < c.nstations, (u.stat x).userMode = (r.stat x).userMode
  count : u.nattachments = ((List.range c.nstations).map fun x =>
    if (u.stat x).status = .active then (u.stat x).nattachments else 0).sum

theorem CleanedUp.consistent (h : CleanedUp c p r u) (hcons : r.Consistent c)
    (hp : p < c.nprocesses) : u.Consistent c := by
  obtain ⟨hused, hsame, hopened⟩ := h.without
  have hstat : ∀ x < c.nstations, ∀ a, (u.stat x).att a = true ↔
      u.Used a ∧ (u.attach a).stat = some x := by
    intro x hx a
    have hr' := hcons.stat x hx a
    have hp' := hcons.proc p hp a
    rw [h.att x hx a, Bool.and_eq_true, Bool.not_eq_true', hr', Bool.eq_false_iff, ne_eq, hp']
    constructor
    · rintro ⟨⟨hu, hthere⟩, hno⟩
      have hstill := (hused a).mpr ⟨hu, fun hproc => hno ⟨hu, hproc⟩⟩
      exact ⟨hstill, hsame a hstill ▸ hthere⟩
    · rintro ⟨hstill, hthere⟩
      obtain ⟨hu, hproc⟩ := (hused a).mp hstill
      exact ⟨⟨hu, hsame a hstill ▸ hthere⟩, fun hno => hproc hno.2⟩
  have hentry : ∀ a, u.Used a → a < c.nattachments ∧
      ∃ st < c.nstations, (u.attach a).stat = some st := by
    intro a ha
    obtain ⟨hlt, -, -, hthere, -⟩ := hcons.used a ((hused a).mp ha).1
    exact ⟨hlt, hsame a ha ▸ hthere⟩
  refine ⟨fun a ha => ?_, h.free, hstat, fun q hq a => ?_, fun x hx => (h.right x hx).1,
    fun q hq => ?_, ?_, h.grandCentral, fun x hx h0 => ?_, fun x hx hmode => ?_⟩
  · obtain ⟨hu, hproc⟩ := (hused a).mp ha
    obtain ⟨hlt, hnum, hactive, hthere, hopen⟩ := hcons.used a hu
    rw [hsame a ha]
    refine ⟨hlt, hnum, hactive, hthere, fun q hq => ?_⟩
    have hne : q ≠ p := fun heq => hproc (heq ▸ hq)
    rw [hopened, Function.update_of_ne hne]
    exact hopen q hq
  · rcases eq_or_ne q p with rfl | hne
    · rw [h.mine]
      refine ⟨fun hno => Bool.noConfusion hno, fun hin => ?_⟩
      exact absurd (hsame a hin.1 ▸ hin.2) ((hused a).mp hin.1).2
    · rw [h.atts q hq hne a, hcons.proc q hq a]
      constructor
      · rintro ⟨hu, hproc⟩
        have hstill := (hused a).mpr ⟨hu, fun hp => hne (Option.some.inj (hproc.symm.trans hp))⟩
        exact ⟨hstill, hsame a hstill ▸ hproc⟩
      · rintro ⟨hstill, hproc⟩
        exact ⟨((hused a).mp hstill).1, hsame a hstill ▸ hproc⟩
  · rcases eq_or_ne q p with rfl | hne
    · rw [h.mine]
      simp [ProcAtts.init, countAtts]
    · exact h.procCount q hq hne
  · rw [h.count, ← sum_countAtts hentry hstat]
    congr 1
    refine List.map_congr_left fun x hx => ?_
    have hx := List.mem_range.mp hx
    obtain ⟨hcount, hiff⟩ := h.right x hx
    split
    · exact hcount
    case isFalse hidle =>
      have h0 : x ≠ 0 := fun h0 => hidle (h0 ▸ h.grandCentral)
      have hnone := mt (hiff h0).mpr hidle
      have hnonneg : 0 ≤ countAtts c (u.stat x).att := countAtts_nonneg _
      omega
  · rw [(h.right x hx).1]
    exact (h.right x hx).2 h0
  · have hsum := others_add_own c r p x
    have hown : 0 ≤ own c r p x := countAtts_nonneg _
    have hcount : (r.stat x).nattachments = countAtts c (r.stat x).att := hcons.statCount x hx
    have hleft : countAtts c (u.stat x).att = others c r p x :=
      countAtts_congr fun a _ => h.att x hx a
    rw [h.userMode x hx] at hmode ⊢
    have hle := hcons.limit x hx hmode
    rw [(h.right x hx).1]
    omega

/-- What the clean-up is for. -/
def Repaired (c : TableSizes) (p : ℕ) (r t : AttachmentTables) : Prop :=
  (t.cleanUp c p).Consistent c ∧ Without p r (t.cleanUp c p)

/-! ### Dying outside of a call -/

section AtRest

variable (hr : r.Consistent c)

include hr

theorem Consistent.active (ha : r.Used a) (hx : x < c.nstations) (hatt : (r.stat x).att a = true) :
    (r.stat x).status = .active := by
  by_cases h0 : x = 0
  · exact h0 ▸ hr.grandCentral
  · rw [hr.status x hx h0, hr.statCount x hx, countAtts_pos_iff]
    exact ⟨a, (hr.used a ha).1, hatt⟩

theorem Consistent.not_lost (a : ℕ) : ¬ r.Lost c a := by
  rintro ⟨hused, hnone⟩
  obtain ⟨-, -, -, ⟨x, hx, hstat⟩, -⟩ := hr.used a hused
  have hatt : (r.stat x).att a = true := (hr.stat x hx a).mpr ⟨hused, hstat⟩
  exact hnone x hx ⟨hatt, hr.active hused hx hatt⟩

theorem Consistent.etFixAttachments_eq : r.etFixAttachments c = r := by
  have hone : ∀ a, r.fixAttachment c a = r := fun a => if_neg (hr.not_lost a)
  unfold etFixAttachments
  induction List.range c.nattachments with
  | nil => rfl
  | cons a xs ih => rw [List.foldl_cons, hone, ih]

/-- **The attachments of a process that dies outside of a call** are detached, and all is right. -/
theorem Consistent.repaired (hp : p < c.nprocesses) : Repaired c p r r := by
  have hfix := hr.etFixAttachments_eq
  have hemptied : Emptied p (List.range c.nattachments) r (r.emptied c p) := by
    unfold emptied
    rw [hfix]
    exact detachAll_emptied c r p
  have hmineAt : ∀ x < c.nstations, ∀ a,
      r.mineAt p x a = ((r.stat x).att a && (r.atts p).att a) := by
    intro x hx a
    rw [Bool.eq_iff_iff, mineAt_eq_true, Bool.and_eq_true, hr.stat x hx, hr.proc p hp]
    tauto
  have hatt : ∀ x < c.nstations, ∀ a, ((r.emptied c p).stat x).att a =
      ((r.stat x).att a && !(r.atts p).att a) := by
    intro x hx a
    have hiff := hemptied.att x a
    rw [hmineAt x hx] at hiff
    rw [Bool.eq_iff_iff, hiff]
    cases hs : (r.stat x).att a with
    | false => simp
    | true =>
        have hin : a ∈ List.range c.nattachments :=
          List.mem_range.mpr (hr.used a ((hr.stat x hx a).mp hs).1).1
        cases hp : (r.atts p).att a <;> simp [hin]
  have hatts : ∀ q a, ((r.emptied c p).atts q).att a = (r.atts q).att a := fun q a => by
    rw [hemptied.atts]
  -- the entries of the process, and the others
  have hentry : ∀ a, (r.emptied c p).attach a =
      if (r.atts p).att a = true then { r.attach a with num := none, active := false }
      else r.attach a := by
    intro a
    split
    case isTrue hmine =>
      obtain ⟨hused, -⟩ := (hr.proc p hp a).mp hmine
      obtain ⟨hlt, -, -, ⟨x, -, hstat⟩, -⟩ := hr.used a hused
      exact hemptied.gone a (List.mem_range.mpr hlt) hmine (by rw [hstat]; exact Option.some_ne_none x)
    case isFalse hno => exact hemptied.kept a fun hin => hno hin.2
  have hused : ∀ a, (r.emptied c p).Used a ↔ r.Used a ∧ (r.attach a).proc ≠ some p := by
    intro a
    have hproc := hr.proc p hp a
    unfold Used at hproc ⊢
    rw [hentry]
    split
    case isTrue hmine => exact ⟨fun h => absurd rfl h, fun h => absurd (hproc.mp hmine).2 h.2⟩
    case isFalse hno => exact ⟨fun h => ⟨h, fun heq => hno (hproc.mpr ⟨h, heq⟩)⟩, And.left⟩
  suffices hclean : CleanedUp c p r (r.cleanUp c p) from
    ⟨hclean.consistent hr hp, hclean.without⟩
  refine ⟨⟨hused, fun a ha => ?_, ?_⟩, fun a ha => ?_, fun x hx a => ?_, cleanUp_atts_self c r p,
    fun q hq hne a => ?_, fun q hq hne => ?_, fun x hx => ?_, ?_, fun x hx => ?_,
    cleanUp_count c r p⟩
  · have hno : (r.atts p).att a ≠ true := fun hmine =>
      ((hused a).mp ha).2 ((hr.proc p hp a).mp hmine).2
    exact (hentry a).trans (if_neg hno)
  · rw [cleanUp_opened, hemptied.opened]
  · have hunused : ¬ (r.emptied c p).Used a := ha
    rw [cleanUp_attach, hentry]
    split
    · rfl
    case isFalse hno =>
      unfold Used at hunused
      rw [hentry, if_neg hno] at hunused
      exact hr.free a hunused
  · rw [(cleanUp_stat c r p x).1]
    exact hatt x hx a
  · rw [(cleanUp_atts_of_ne c r p hne).1]
    exact hatts q a
  · obtain ⟨hsame, hnatts⟩ := cleanUp_atts_of_ne c r p hne
    rw [hnatts, hsame]
    split
    · rfl
    · rw [hemptied.atts]
      exact hr.procCount q hq
  · have hdetach : toDetach c r p x = own c r p x := by
      unfold toDetach
      rw [hfix]
      exact countAtts_congr fun a _ => hmineAt x hx a
    have hsum := others_add_own c r p x
    have hothers : 0 ≤ others c r p x := countAtts_nonneg _
    have hown : 0 ≤ own c r p x := countAtts_nonneg _
    have hcount := hr.statCount x hx
    refine stationRight_of_eq (m := others c r p x) (fun h0 => h0 ▸ hr.grandCentral) hx
      (countAtts_congr fun a _ => hatt x hx a) (by omega) (fun hpos => ?_) fun hzero h0 => ?_
    · by_cases h0 : x = 0
      · exact h0 ▸ hr.grandCentral
      · rw [hr.status x hx h0]
        omega
    · rw [ne_eq, hr.status x hx h0]
      omega
  · rw [(cleanUp_stat c r p 0).2.1, hemptied.status 0 fun hno => hno.1 rfl]
    exact hr.grandCentral
  · rw [(cleanUp_stat c r p x).2.2, hemptied.userMode]

end AtRest

/-! ## Tables that differ at one attachment -/

/-- **Tables in the middle of a call**: they differ from `r` at the attachment `i`, at its station `st`,
and at its process `p` only. -/
structure Near (c : TableSizes) (p i st : ℕ) (r t : AttachmentTables) : Prop where
  attach : ∀ a, a ≠ i → t.attach a = r.attach a
  stat : ∀ x, x ≠ st → t.stat x = r.stat x
  userMode : (t.stat st).userMode = (r.stat st).userMode
  att : ∀ a, a ≠ i → (t.stat st).att a = (r.stat st).att a
  status : (t.stat st).status = .active ∨ ∀ a, a ≠ i → (r.stat st).att a = false
  grandCentral : st = 0 → (t.stat st).status = .active
  proc : ∀ q, q ≠ p → t.atts q = r.atts q
  mine : ∀ a, a ≠ i → (t.atts p).att a = (r.atts p).att a
  there : (t.atts p).att i = true → (t.attach i).stat = some st
  opened : t.opened = r.opened

/-- **The call's attachment** is free before the call, or is the process's own. -/
structure Subject (c : TableSizes) (p i st : ℕ) (r : AttachmentTables) : Prop where
  consistent : r.Consistent c
  proc_lt : p < c.nprocesses
  lt : i < c.nattachments
  stat_lt : st < c.nstations
  mine : r.Used i → (r.attach i).proc = some p ∧ (r.attach i).stat = some st

section Near

variable (hr : Subject c p i st r) (h : Near c p i st r t)

theorem Near.used_iff (h : Near c p i st r t) (ha : a ≠ i) : t.Used a ↔ r.Used a := by
  unfold Used
  rw [h.attach a ha]

include hr

theorem Subject.att_iff (hx : x < c.nstations) (hmine : (r.atts p).att a = true) :
    (r.stat x).att a = true ↔ (r.attach a).stat = some x := by
  rw [hr.consistent.stat x hx a]
  exact and_iff_right ((hr.consistent.proc p hr.proc_lt a).mp hmine).1

/-- The attachment is at no other station, and with no other process. -/
theorem Subject.att_false (hx : x < c.nstations) (hne : x ≠ st) : (r.stat x).att i = false := by
  rw [Bool.eq_false_iff]
  intro hatt
  obtain ⟨hused, hstat⟩ := (hr.consistent.stat x hx i).mp hatt
  exact hne (Option.some.inj (hstat.symm.trans (hr.mine hused).2))

theorem Subject.proc_false (hq : q < c.nprocesses) (hne : q ≠ p) : (r.atts q).att i = false := by
  rw [Bool.eq_false_iff]
  intro hatt
  obtain ⟨hused, hproc⟩ := (hr.consistent.proc q hq i).mp hatt
  exact hne (Option.some.inj (hproc.symm.trans (hr.mine hused).1))

theorem Subject.others_self : ((r.stat st).att i && !(r.atts p).att i) = false := by
  cases hatt : (r.stat st).att i with
  | false => rfl
  | true =>
      obtain ⟨hused, -⟩ := (hr.consistent.stat st hr.stat_lt i).mp hatt
      have hmine := (hr.consistent.proc p hr.proc_lt i).mpr ⟨hused, (hr.mine hused).1⟩
      rw [hmine]
      rfl

theorem Subject.own_self :
    ((r.stat st).att i && (r.atts p).att i) = decide (r.Used i) := by
  by_cases hused : r.Used i
  · have hatt := (hr.consistent.stat st hr.stat_lt i).mpr ⟨hused, (hr.mine hused).2⟩
    have hmine := (hr.consistent.proc p hr.proc_lt i).mpr ⟨hused, (hr.mine hused).1⟩
    rw [hatt, hmine, decide_eq_true hused]
    rfl
  · have hatt : (r.stat st).att i = false := Bool.eq_false_iff.mpr fun hatt =>
      hused ((hr.consistent.stat st hr.stat_lt i).mp hatt).1
    rw [hatt, decide_eq_false hused]
    rfl

include h

/-- Only the call's attachment can be lost. -/
theorem Near.eq_of_lost (hlost : t.Lost c a) : a = i := by
  by_contra hne
  obtain ⟨hused, hnone⟩ := hlost
  have hrused := (h.used_iff hne).mp hused
  obtain ⟨-, -, -, ⟨x, hx, hstat⟩, -⟩ := hr.consistent.used a hrused
  have hatt : (r.stat x).att a = true := (hr.consistent.stat x hx a).mpr ⟨hrused, hstat⟩
  refine hnone x hx ?_
  rcases eq_or_ne x st with rfl | hxs
  · rw [h.att a hne]
    refine ⟨hatt, h.status.resolve_right fun hno => ?_⟩
    rw [hno a hne] at hatt
    cases hatt
  · rw [h.stat x hxs]
    refine ⟨hatt, ?_⟩
    by_cases h0 : x = 0
    · rw [h0]
      exact hr.consistent.grandCentral
    · rw [hr.consistent.status x hx h0, hr.consistent.statCount x hx, countAtts_pos_iff]
      exact ⟨a, (hr.consistent.used a hrused).1, hatt⟩

/-- The other entries, when the lost attachments have been wiped out. -/
theorem Near.fixed (ha : a ≠ i) : (t.etFixAttachments c).attach a = r.attach a ∧
    ∀ q, ((t.etFixAttachments c).atts q).att a = (t.atts q).att a := by
  obtain ⟨hattach, hatts⟩ := (etFixAttachments_wiped c t).kept a fun hin =>
    ha (h.eq_of_lost hr hin.2)
  exact ⟨hattach.trans (h.attach a ha), hatts⟩

/-- The other entries, when the process has no attachments any more. -/
theorem Near.emptied_used_iff (ha : a ≠ i) :
    (t.emptied c p).Used a ↔ r.Used a ∧ (r.attach a).proc ≠ some p := by
  obtain ⟨hattach, hatts⟩ := h.fixed hr ha
  have hemptied := detachAll_emptied c (t.etFixAttachments c) p
  have hproc := hr.consistent.proc p hr.proc_lt a
  by_cases hmine : (r.atts p).att a = true
  · obtain ⟨hused, hp⟩ := hproc.mp hmine
    obtain ⟨hlt, -, -, ⟨x, -, hstat⟩, -⟩ := hr.consistent.used a hused
    have hgone := hemptied.gone a (List.mem_range.mpr hlt)
      ((hatts p).trans ((h.mine a ha).trans hmine)) (by rw [hattach, hstat]; exact Option.some_ne_none x)
    refine ⟨fun hstill => absurd ?_ hstill, fun hno => absurd hp hno.2⟩
    unfold emptied
    rw [hgone]
  · have hkept := hemptied.kept a fun hin =>
      hmine ((h.mine a ha).symm.trans ((hatts p).symm.trans hin.2))
    unfold emptied Used
    rw [hkept, hattach]
    exact ⟨fun hused => ⟨hused, fun hp => hmine (hproc.mpr ⟨hused, hp⟩)⟩, And.left⟩

theorem Near.emptied_attach (ha : a ≠ i) (hused : (t.emptied c p).Used a) :
    (t.emptied c p).attach a = r.attach a := by
  obtain ⟨hattach, hatts⟩ := h.fixed hr ha
  obtain ⟨hrused, hproc⟩ := (h.emptied_used_iff hr ha).mp hused
  have hkept := (detachAll_emptied c (t.etFixAttachments c) p).kept a fun hin =>
    hproc ((hr.consistent.proc p hr.proc_lt a).mp
      ((h.mine a ha).symm.trans ((hatts p).symm.trans hin.2))).2
  exact hkept.trans hattach

/-- The entries that are not in use. -/
theorem Near.emptied_passive (ha : a ≠ i) (hunused : ¬ (t.emptied c p).Used a) :
    ((t.emptied c p).attach a).active = false := by
  obtain ⟨hattach, hatts⟩ := h.fixed hr ha
  have hemptied := detachAll_emptied c (t.etFixAttachments c) p
  by_cases hmine : (r.atts p).att a = true
  · obtain ⟨hused, -⟩ := (hr.consistent.proc p hr.proc_lt a).mp hmine
    obtain ⟨hlt, -, -, ⟨x, -, hstat⟩, -⟩ := hr.consistent.used a hused
    have hgone := hemptied.gone a (List.mem_range.mpr hlt)
      ((hatts p).trans ((h.mine a ha).trans hmine)) (by rw [hattach, hstat]; exact Option.some_ne_none x)
    exact congrArg AttachEntry.active hgone
  · have hkept := (hemptied.kept a fun hin =>
      hmine ((h.mine a ha).symm.trans ((hatts p).symm.trans hin.2))).trans hattach
    unfold emptied Used at hunused
    rw [hkept] at hunused
    exact (congrArg AttachEntry.active hkept).trans (hr.consistent.free a hunused)

theorem Near.mineAt_eq (hx : x < c.nstations) (ha : a ≠ i) :
    (t.etFixAttachments c).mineAt p x a = ((r.stat x).att a && (r.atts p).att a) := by
  obtain ⟨hattach, hatts⟩ := h.fixed hr ha
  unfold mineAt
  rw [hatts p, h.mine a ha, hattach]
  cases hmine : (r.atts p).att a with
  | false => simp
  | true =>
      rw [Bool.true_and, Bool.and_true, Bool.eq_iff_iff, decide_eq_true_eq]
      exact (hr.att_iff hx hmine).symm

/-- The array of a station. -/
theorem Near.emptied_att (hx : x < c.nstations) (ha : a ≠ i) :
    ((t.emptied c p).stat x).att a = ((r.stat x).att a && !(r.atts p).att a) := by
  have hatt : ((t.etFixAttachments c).stat x).att a = (r.stat x).att a := by
    rw [(etFixAttachments_wiped c t).stat]
    rcases eq_or_ne x st with rfl | hxs
    · exact h.att a ha
    · rw [h.stat x hxs]
  have hiff := (detachAll_emptied c (t.etFixAttachments c) p).att x a
  rw [hatt, h.mineAt_eq hr hx ha] at hiff
  rw [Bool.eq_iff_iff]
  refine hiff.trans ?_
  have hlt : (r.stat x).att a = true → a ∈ List.range c.nattachments := fun hatt =>
    List.mem_range.mpr (hr.consistent.used a ((hr.consistent.stat x hx a).mp hatt).1).1
  cases hs : (r.stat x).att a with
  | false => simp
  | true =>
      have hin := hlt hs
      cases hp : (r.atts p).att a <;> simp [hin]

/-! ### The attachment itself -/

/-- It is in the process's array, and not lost, when the clean-up comes to detach it. -/
theorem Near.fixed_mine (hmine : ((t.etFixAttachments c).atts p).att i = true) :
    ¬ t.Lost c i ∧ (t.atts p).att i = true ∧
      (t.etFixAttachments c).attach i = t.attach i ∧ (t.attach i).stat = some st := by
  have hwiped := etFixAttachments_wiped c t
  have hkept : ¬ t.Lost c i := fun hlost => by
    rw [(hwiped.wiped i (List.mem_range.mpr hr.lt) hlost).2 p hr.proc_lt] at hmine
    cases hmine
  obtain ⟨hattach, hatts⟩ := hwiped.kept i fun hin => hkept hin.2
  have hthere := (hatts p).symm.trans hmine
  exact ⟨hkept, hthere, hattach, h.there hthere⟩

theorem Near.mineAt_self_of_ne (hne : x ≠ st) : (t.etFixAttachments c).mineAt p x i = false := by
  rw [Bool.eq_false_iff]
  intro hin
  obtain ⟨hmine, hstat⟩ := mineAt_eq_true.mp hin
  obtain ⟨-, -, hattach, hthere⟩ := h.fixed_mine hr hmine
  rw [hattach, hthere] at hstat
  exact hne (Option.some.inj hstat).symm

/-- The clean-up detaches the attachment, if it is in the process's array and not lost. -/
theorem Near.mineAt_self_iff : (t.etFixAttachments c).mineAt p st i = true ↔
    ¬ t.Lost c i ∧ (t.atts p).att i = true := by
  rw [mineAt_eq_true]
  constructor
  · rintro ⟨hmine, -⟩
    obtain ⟨hkept, hthere, -⟩ := h.fixed_mine hr hmine
    exact ⟨hkept, hthere⟩
  · rintro ⟨hkept, hthere⟩
    obtain ⟨hattach, hatts⟩ := (etFixAttachments_wiped c t).kept i fun hin => hkept hin.2
    exact ⟨(hatts p).trans hthere, hattach ▸ h.there hthere⟩

theorem Near.emptied_att_self_of_ne (hx : x < c.nstations) (hne : x ≠ st) :
    ((t.emptied c p).stat x).att i = false := by
  rw [Bool.eq_false_iff]
  intro hin
  have hatt := (((detachAll_emptied c (t.etFixAttachments c) p).att x i).mp hin).1
  rw [(etFixAttachments_wiped c t).stat, h.stat x hne, hr.att_false hx hne] at hatt
  cases hatt

theorem Near.emptied_atts (hq : q < c.nprocesses) (hne : q ≠ p) (a : ℕ) :
    ((t.emptied c p).atts q).att a = (r.atts q).att a := by
  have hsame : ((t.emptied c p).atts q).att a = ((t.etFixAttachments c).atts q).att a :=
    congrArg (fun f : ℕ → ProcAtts => (f q).att a)
      (detachAll_emptied c (t.etFixAttachments c) p).atts
  rw [hsame]
  rcases eq_or_ne a i with rfl | ha
  · have hfalse := hr.proc_false hq hne
    by_cases hlost : t.Lost c a
    · rw [((etFixAttachments_wiped c t).wiped a (List.mem_range.mpr hr.lt) hlost).2 q hq, hfalse]
    · rw [((etFixAttachments_wiped c t).kept a fun hin => hlost hin.2).2 q, h.proc q hne]
  · rw [(h.fixed hr ha).2 q, h.proc q hne]

/-! ### Counts -/

/-- The counts at the other stations. -/
theorem Near.toDetach_of_ne (hx : x < c.nstations) (hne : x ≠ st) :
    toDetach c t p x = own c r p x := by
  refine countAtts_congr fun a _ => ?_
  rcases eq_or_ne a i with rfl | ha
  · rw [h.mineAt_self_of_ne hr hne, hr.att_false hx hne, Bool.false_and]
  · exact h.mineAt_eq hr hx ha

theorem Near.count_of_ne (hx : x < c.nstations) (hne : x ≠ st) :
    countAtts c ((t.emptied c p).stat x).att = others c r p x := by
  refine countAtts_congr fun a _ => ?_
  rcases eq_or_ne a i with rfl | ha
  · rw [h.emptied_att_self_of_ne hr hx hne, hr.att_false hx hne, Bool.false_and]
  · exact h.emptied_att hr hx ha

theorem Near.count_self (hoff : ((t.emptied c p).stat st).att i = false) :
    countAtts c ((t.emptied c p).stat st).att = others c r p st := by
  refine countAtts_congr fun a _ => ?_
  rcases eq_or_ne a i with rfl | ha
  · rw [hoff, hr.others_self]
  · exact h.emptied_att hr hr.stat_lt ha

theorem Near.toDetach_self :
    toDetach c t p st + (if r.Used i then 1 else 0) =
      own c r p st + if ¬ t.Lost c i ∧ (t.atts p).att i = true then 1 else 0 := by
  have hfun : ∀ a < c.nattachments, (t.etFixAttachments c).mineAt p st a =
      Function.update (fun a => (r.stat st).att a && (r.atts p).att a) i
        ((t.etFixAttachments c).mineAt p st i) a := by
    intro a _
    rcases eq_or_ne a i with rfl | ha
    · rw [Function.update_self]
    · rw [Function.update_of_ne ha]
      exact h.mineAt_eq hr hr.stat_lt ha
  have hcount := @countAtts_update c i (fun a => (r.stat st).att a && (r.atts p).att a) hr.lt
    ((t.etFixAttachments c).mineAt p st i)
  rw [← countAtts_congr hfun] at hcount
  rw [hr.own_self] at hcount
  simp only [decide_eq_true_eq, h.mineAt_self_iff hr] at hcount
  exact hcount

/-! ### The whole tables -/

/-- The stations that the call has nothing to do with. -/
theorem Near.stationRight_of_ne (hx : x < c.nstations) (hne : x ≠ st) :
    StationRight c (t.cleanUp c p) x := by
  have hstat := h.stat x hne
  have hcons := hr.consistent
  have hsum := others_add_own c r p x
  have hm0 : 0 ≤ others c r p x := countAtts_nonneg _
  have hk0 : 0 ≤ own c r p x := countAtts_nonneg _
  have hdetach := h.toDetach_of_ne hr hx hne
  have hnatts : (t.stat x).nattachments = others c r p x + own c r p x := by
    rw [hstat, hcons.statCount x hx, hsum]
  refine stationRight_of_eq (fun h0 => ?_) hx (h.count_of_ne hr hx hne) (hnatts.trans (by rw [hdetach]))
    (fun hpos => ?_) fun hzero hx0 => ?_
  · rw [hstat, h0]
    exact hcons.grandCentral
  · rw [hstat]
    by_cases h0 : x = 0
    · rw [h0]
      exact hcons.grandCentral
    · rw [hcons.status x hx h0, ← hstat, hnatts]
      omega
  · rw [hstat, ne_eq, hcons.status x hx hx0, ← hstat, hnatts]
    omega

/-- The call's attachment is gone altogether. -/
structure Clean (i st : ℕ) (u : AttachmentTables) : Prop where
  unused : ¬ u.Used i
  passive : (u.attach i).active = false
  off : (u.stat st).att i = false

/-- **What is to be shown of the attachment and its station.** -/
theorem Near.good_iff : Repaired c p r t ↔
    Clean i st (t.cleanUp c p) ∧ StationRight c (t.cleanUp c p) st := by
  have hcons := hr.consistent
  have hgone : ¬ (r.Used i ∧ (r.attach i).proc ≠ some p) := fun hin => hin.2 (hr.mine hin.1).1
  constructor
  · rintro ⟨hu, hwithout⟩
    have hunused : ¬ (t.cleanUp c p).Used i := fun hused => hgone ((hwithout.used i).mp hused)
    refine ⟨⟨hunused, hu.free i hunused, Bool.eq_false_iff.mpr fun hatt =>
      hunused ((hu.stat st hr.stat_lt i).mp hatt).1⟩, hu.statCount st hr.stat_lt, fun h0 => ?_⟩
    rw [hu.status st hr.stat_lt h0, hu.statCount st hr.stat_lt]
  rintro ⟨⟨hunused, hpassive, hoff⟩, hright⟩
  have hoff' : ((t.emptied c p).stat st).att i = false := (cleanUp_stat c t p st).1 ▸ hoff
  have hatts : ∀ q < c.nprocesses, q ≠ p → ∀ a,
      ((t.cleanUp c p).atts q).att a = (r.atts q).att a := fun q hq hne a =>
    (congrFun (cleanUp_atts_of_ne c t p hne).1 a).trans (h.emptied_atts hr hq hne a)
  suffices hclean : CleanedUp c p r (t.cleanUp c p) from
    ⟨hclean.consistent hcons hr.proc_lt, hclean.without⟩
  refine ⟨⟨fun a => ?_, fun a ha => ?_, ?_⟩, fun a ha => ?_, fun x hx a => ?_,
    cleanUp_atts_self c t p, hatts, fun q hq hne => ?_, fun x hx => ?_, ?_, fun x hx => ?_,
    cleanUp_count c t p⟩
  · rcases eq_or_ne a i with rfl | ha
    · exact ⟨fun h => absurd h hunused, fun h => absurd h hgone⟩
    · exact h.emptied_used_iff hr ha
  · exact h.emptied_attach hr (fun heq => hunused (heq ▸ ha)) ha
  · rw [cleanUp_opened, ← h.opened, ← (etFixAttachments_wiped c t).opened]
    exact congrArg (Function.update · p false)
      (detachAll_emptied c (t.etFixAttachments c) p).opened
  · rcases eq_or_ne a i with rfl | hne
    · exact hpassive
    · exact h.emptied_passive hr hne ha
  · rw [(cleanUp_stat c t p x).1]
    rcases eq_or_ne a i with rfl | ha
    · rcases eq_or_ne x st with rfl | hne
      · rw [hoff', hr.others_self]
      · rw [h.emptied_att_self_of_ne hr hx hne, hr.att_false hx hne, Bool.false_and]
    · exact h.emptied_att hr hx ha
  · obtain ⟨hsame', hnatts⟩ := cleanUp_atts_of_ne c t p hne
    rw [hnatts, hsame']
    split
    · rfl
    · have hkept : ((t.emptied c p).atts q).nattachments = (r.atts q).nattachments := by
        rw [← h.proc q hne, ← (etFixAttachments_wiped c t).natts q]
        exact congrArg (fun f : ℕ → ProcAtts => (f q).nattachments)
          (detachAll_emptied c (t.etFixAttachments c) p).atts
      rw [hkept, hcons.procCount q hq]
      exact (countAtts_congr fun a _ => h.emptied_atts hr hq hne a).symm
  · rcases eq_or_ne x st with rfl | hne
    · exact hright
    · exact h.stationRight_of_ne hr hx hne
  · rw [(cleanUp_stat c t p 0).2.1, (emptied_stat c t p 0).2.2.1 fun hno => hno.1 rfl]
    rcases eq_or_ne 0 st with h0 | hne
    · rw [h0]
      exact h.grandCentral h0.symm
    · rw [h.stat 0 hne]
      exact hcons.grandCentral
  · rw [(cleanUp_stat c t p x).2.2, (emptied_stat c t p x).2.2.2]
    rcases eq_or_ne x st with rfl | hne
    · exact h.userMode
    · rw [h.stat x hne]

end Near

/-! ### The attachment after the clean-up -/

section Attachment

variable (hr : Subject c p i st r)

include hr

/-- No station knows of the attachment. -/
theorem Near.lost_of_off (h : Near c p i st r t) (hused : t.Used i)
    (hoff : (t.stat st).att i = false) : t.Lost c i := by
  refine ⟨hused, fun x hx hin => ?_⟩
  rcases eq_or_ne x st with rfl | hne
  · rw [hoff] at hin
    exact Bool.false_ne_true hin.1
  · rw [h.stat x hne, hr.att_false hx hne] at hin
    exact Bool.false_ne_true hin.1

/-- A lost attachment is wiped out, but for what the station has noted. -/
theorem Near.wiped (h : Near c p i st r t) (hlost : t.Lost c i) :
    (t.emptied c p).attach i = .init ∧
      ((t.emptied c p).stat st).att i = (t.stat st).att i := by
  have hwiped := etFixAttachments_wiped c t
  have hemptied := detachAll_emptied c (t.etFixAttachments c) p
  obtain ⟨hinit, hatt⟩ := hwiped.wiped i (List.mem_range.mpr hr.lt) hlost
  have hno : ((t.etFixAttachments c).atts p).att i = false := hatt p hr.proc_lt
  have hmine : ¬ (t.etFixAttachments c).mineAt p st i = true := fun hin =>
    ((h.mineAt_self_iff hr).mp hin).1 hlost
  refine ⟨(hemptied.kept i fun hin => ?_).trans hinit, ?_⟩
  · rw [hno] at hin
    exact Bool.false_ne_true hin.2
  · have hiff := hemptied.att st i
    rw [hwiped.stat] at hiff
    rw [Bool.eq_iff_iff]
    exact hiff.trans (and_iff_left fun hin => hmine hin.2)

theorem Near.clean_of_lost (h : Near c p i st r t) (hlost : t.Lost c i)
    (hoff : (t.stat st).att i = false) : Clean i st (t.cleanUp c p) := by
  obtain ⟨hinit, hatt⟩ := h.wiped hr hlost
  refine ⟨fun hused => ?_, ?_, ?_⟩
  · rw [cleanUp_used] at hused
    unfold Used at hused
    rw [hinit] at hused
    exact hused rfl
  · rw [cleanUp_attach, hinit]
    rfl
  · rw [(cleanUp_stat c t p st).1, hatt, hoff]

/-- An attachment that is not lost is detached, if it is in the process's array. -/
theorem Near.clean_of_mine (h : Near c p i st r t) (hkept : ¬ t.Lost c i)
    (hmine : (t.atts p).att i = true) : Clean i st (t.cleanUp c p) := by
  have hemptied := detachAll_emptied c (t.etFixAttachments c) p
  obtain ⟨hattach, hatts⟩ := (etFixAttachments_wiped c t).kept i fun hin => hkept hin.2
  have hin : i ∈ List.range c.nattachments := List.mem_range.mpr hr.lt
  have hgone := hemptied.gone i hin ((hatts p).trans hmine)
    (by rw [hattach, h.there hmine]; exact Option.some_ne_none st)
  refine ⟨fun hused => ?_, ?_, ?_⟩
  · rw [cleanUp_used] at hused
    unfold Used emptied at hused
    rw [hgone] at hused
    exact hused rfl
  · exact congrArg AttachEntry.active hgone
  · rw [(cleanUp_stat c t p st).1, Bool.eq_false_iff]
    intro hatt
    exact ((hemptied.att st i).mp hatt).2 ⟨hin, (h.mineAt_self_iff hr).mpr ⟨hkept, hmine⟩⟩

omit hr in
/-- The process may have no attachment there yet. -/
theorem clean_of_unused (hunused : ¬ t.Used i)
    (hmine : (t.atts p).att i = false) (hpassive : (t.attach i).active = false)
    (hoff : (t.stat st).att i = false) : Clean i st (t.cleanUp c p) := by
  have hkept : ¬ t.Lost c i := fun hlost => hunused hlost.1
  have hwiped := etFixAttachments_wiped c t
  obtain ⟨hattach, hatts⟩ := hwiped.kept i fun hin => hkept hin.2
  have hemptied := detachAll_emptied c (t.etFixAttachments c) p
  have hsame : (t.emptied c p).attach i = t.attach i := (hemptied.kept i fun hin =>
    Bool.false_ne_true (hmine.symm.trans ((hatts p).symm.trans hin.2))).trans hattach
  refine ⟨fun hused => hunused ?_, ?_, ?_⟩
  · rw [cleanUp_used] at hused
    unfold Used at hused ⊢
    rwa [hsame] at hused
  · rw [cleanUp_attach, hsame, hpassive]
  · rw [(cleanUp_stat c t p st).1, Bool.eq_false_iff]
    intro hatt
    have := ((hemptied.att st i).mp hatt).1
    rw [hwiped.stat, hoff] at this
    exact Bool.false_ne_true this

/-- The others keep the station active. -/
theorem Near.active_of_others (h : Near c p i st r t) (hpos : 0 < others c r p st) :
    (t.stat st).status = .active := by
  refine h.status.resolve_right fun hno => ?_
  obtain ⟨a, -, ha⟩ := countAtts_pos_iff.mp hpos
  rcases eq_or_ne a i with rfl | hne
  · rw [hr.others_self] at ha
    cases ha
  · rw [hno a hne] at ha
    cases ha

end Attachment

end AttachmentTables

end EventTransfer
