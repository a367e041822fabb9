import EventTransfer.AttachmentCalls

/-!
# What the clean-up does to the tables
-/

namespace EventTransfer

open StoreProgram Prog FenceState Tally

namespace AttachmentTables

variable {c : TableSizes} {r s t : AttachmentTables} {a b i st p : ℕ} {xs : List ℕ}

/-! ## Wiping out attachments -/

/-- **`et_fix_attachments`**, for the attachments of a list: the lost ones are wiped out. -/
structure Wiped (c : TableSizes) (xs : List ℕ) (s t : AttachmentTables) : Prop where
  stat : t.stat = s.stat
  opened : t.opened = s.opened
  natts : ∀ q, (t.atts q).nattachments = (s.atts q).nattachments
  wiped : ∀ a ∈ xs, s.Lost c a → t.attach a = .init ∧ ∀ q < c.nprocesses, (t.atts q).att a = false
  kept : ∀ a, ¬ (a ∈ xs ∧ s.Lost c a) →
    t.attach a = s.attach a ∧ ∀ q, (t.atts q).att a = (s.atts q).att a

theorem fixAttachment_wiped (s : AttachmentTables) (a : ℕ) :
    Wiped c [a] s (s.fixAttachment c a) := by
  unfold fixAttachment
  split
  case isTrue hlost =>
    refine ⟨rfl, rfl, fun q => ?_, fun b hb _ => ?_, fun b hb => ?_⟩
    · dsimp only
      split <;> rfl
    · obtain rfl := List.mem_singleton.mp hb
      refine ⟨Function.update_self .., fun q hq => ?_⟩
      dsimp only
      rw [if_pos hq]
      exact Function.update_self ..
    · have hne : b ≠ a := fun h => hb ⟨h ▸ List.mem_singleton_self b, h ▸ hlost⟩
      refine ⟨Function.update_of_ne hne .., fun q => ?_⟩
      dsimp only
      split
      · exact Function.update_of_ne hne ..
      · rfl
  case isFalse hkept =>
    exact ⟨rfl, rfl, fun _ => rfl, fun b hb hlost => absurd (List.mem_singleton.mp hb ▸ hlost) hkept,
      fun b _ => ⟨rfl, fun _ => rfl⟩⟩

theorem Wiped.lost_congr (h : Wiped c xs s t) (hattach : t.attach b = s.attach b) :
    t.Lost c b ↔ s.Lost c b := by
  unfold Lost
  rw [h.stat, hattach]

/-- An attachment that has been wiped out is not in use. -/
theorem Wiped.lost_iff (h : Wiped c [a] s t) : t.Lost c b ↔ b ≠ a ∧ s.Lost c b := by
  by_cases hs : b ∈ [a] ∧ s.Lost c b
  · obtain rfl := List.mem_singleton.mp hs.1
    refine ⟨fun hlost => absurd ?_ hlost.1, fun hlost => absurd rfl hlost.1⟩
    rw [(h.wiped b hs.1 hs.2).1]
    rfl
  · rw [h.lost_congr (h.kept b hs).1]
    exact ⟨fun hlost => ⟨fun hba => hs ⟨List.mem_singleton.mpr hba, hlost⟩, hlost⟩, And.right⟩

theorem Wiped.cons (h : Wiped c [a] s r) (h' : Wiped c xs r t) : Wiped c (a :: xs) s t := by
  refine ⟨h'.stat.trans h.stat, h'.opened.trans h.opened,
    fun q => (h'.natts q).trans (h.natts q), fun b hb hlost => ?_, fun b hb => ?_⟩
  · rcases eq_or_ne b a with rfl | hne
    · obtain ⟨hinit, hatt⟩ := h.wiped b (List.mem_singleton_self b) hlost
      obtain ⟨hsame, hsame'⟩ := h'.kept b fun hin => (h.lost_iff.mp hin.2).1 rfl
      exact ⟨hsame.trans hinit, fun q hq => (hsame' q).trans (hatt q hq)⟩
    · exact h'.wiped b ((List.mem_cons.mp hb).resolve_left hne) (h.lost_iff.mpr ⟨hne, hlost⟩)
  · have hfirst : ¬ (b ∈ [a] ∧ s.Lost c b) := fun hin =>
      hb ⟨List.mem_cons.mpr (.inl (List.mem_singleton.mp hin.1)), hin.2⟩
    have hrest : ¬ (b ∈ xs ∧ r.Lost c b) := fun hin =>
      hb ⟨List.mem_cons_of_mem a hin.1, (h.lost_iff.mp hin.2).2⟩
    obtain ⟨hsame, hatt⟩ := h.kept b hfirst
    obtain ⟨hsame', hatt'⟩ := h'.kept b hrest
    exact ⟨hsame'.trans hsame, fun q => (hatt' q).trans (hatt q)⟩

theorem etFixAttachments_wiped (c : TableSizes) (s : AttachmentTables) :
    Wiped c (List.range c.nattachments) s (s.etFixAttachments c) := by
  unfold etFixAttachments
  induction List.range c.nattachments generalizing s with
  | nil =>
      exact ⟨rfl, rfl, fun _ => rfl, fun a ha => absurd ha List.not_mem_nil,
        fun a _ => ⟨rfl, fun _ => rfl⟩⟩
  | cons a xs ih => exact (fixAttachment_wiped s a).cons (ih (s.fixAttachment c a))

/-! ## Detaching what is left -/

/-- The attachments of the process to a station. -/
def mineAt (s : AttachmentTables) (p st : ℕ) (a : ℕ) : Bool :=
  (s.atts p).att a && decide ((s.attach a).stat = some st)

/-- **The loop over the array of a process**, for the attachments of a list.  A station becomes idle
when its count comes down from `1`. -/
structure Emptied (p : ℕ) (xs : List ℕ) (s t : AttachmentTables) : Prop where
  atts : t.atts = s.atts
  opened : t.opened = s.opened
  gone : ∀ a ∈ xs, (s.atts p).att a = true → (s.attach a).stat ≠ none →
    t.attach a = { s.attach a with num := none, active := false }
  kept : ∀ a, ¬ (a ∈ xs ∧ (s.atts p).att a = true) → t.attach a = s.attach a
  stat : ∀ a, (t.attach a).stat = (s.attach a).stat
  att : ∀ st a, (t.stat st).att a = true ↔
    (s.stat st).att a = true ∧ ¬ (a ∈ xs ∧ s.mineAt p st a = true)
  natts : ∀ st, (t.stat st).nattachments = (s.stat st).nattachments - xs.countP (s.mineAt p st)
  idle : ∀ st, st ≠ 0 → 1 ≤ (s.stat st).nattachments →
    (s.stat st).nattachments ≤ xs.countP (s.mineAt p st) → (t.stat st).status = .idle
  status : ∀ st, ¬ (st ≠ 0 ∧ 1 ≤ (s.stat st).nattachments ∧
    (s.stat st).nattachments ≤ xs.countP (s.mineAt p st)) → (t.stat st).status = (s.stat st).status
  userMode : ∀ st, (t.stat st).userMode = (s.stat st).userMode

theorem final_etStationDetach (ha : a < c.nattachments) :
    final (etStationDetach c true none a) s =
      match (s.attach a).stat with
      | none => s
      | some st => s.detached none a st := by
  unfold etStationDetach
  rw [final_bind, final_get, value_get, if_neg (not_le.mpr ha)]
  cases (s.attach a).stat with
  | none => rfl
  | some st =>
      dsimp only
      rw [final_bind, final_pure]
      exact final_detachStores s none a st

theorem mineAt_eq_true : s.mineAt p st a = true ↔
    (s.atts p).att a = true ∧ (s.attach a).stat = some st := by
  unfold mineAt
  rw [Bool.and_eq_true, decide_eq_true_eq]

/-- One attachment of the process is detached. -/
theorem detached_emptied (ha : (s.atts p).att a = true) (hstat : (s.attach a).stat = some st) :
    Emptied p [a] s (s.detached none a st) := by
  have hself : (s.detached none a st).attach a = { s.attach a with num := none, active := false } :=
    Function.update_self ..
  have hother : ∀ b ≠ a, (s.detached none a st).attach b = s.attach b := fun b hb =>
    Function.update_of_ne hb ..
  have hcount : ∀ x, [a].countP (s.mineAt p x) = if x = st then 1 else 0 := by
    intro x
    rw [List.countP_singleton]
    refine if_congr (mineAt_eq_true.trans ⟨fun h => ?_, fun h => ⟨ha, h ▸ hstat⟩⟩) rfl rfl
    exact Option.some.inj (h.2.symm.trans hstat)
  refine ⟨rfl, rfl, fun b hb _ _ => ?_, fun b hb => ?_, fun b => ?_, fun x b => ?_, fun x => ?_,
    fun x hx h1 hle => ?_, fun x hx => ?_, fun x => ?_⟩
  · rw [List.mem_singleton.mp hb, hself]
  · refine hother b fun h => hb ⟨List.mem_singleton.mpr h, h ▸ ha⟩
  · rcases eq_or_ne b a with rfl | hba
    · rw [hself]
    · rw [hother b hba]
  · rw [mineAt_eq_true, List.mem_singleton]
    rcases eq_or_ne x st with rfl | hxs
    · rw [detached_stat_self]
      rcases eq_or_ne b a with rfl | hba
      · simp [ha, hstat]
      · simp [hba]
    · rw [detached_stat_of_ne hxs]
      refine ⟨fun h => ⟨h, fun hin => ?_⟩, And.left⟩
      obtain ⟨rfl, -, hx⟩ := hin
      exact hxs (Option.some.inj (hx.symm.trans hstat))
  · rw [hcount]
    rcases eq_or_ne x st with rfl | hxs
    · rw [detached_stat_self, if_pos rfl]
      rfl
    · rw [detached_stat_of_ne hxs, if_neg hxs]
      simp
  · rw [hcount] at hle
    rcases eq_or_ne x st with rfl | hxs
    · rw [if_pos rfl] at hle
      rw [detached_stat_self]
      exact if_pos ⟨le_antisymm hle h1, hx⟩
    · rw [if_neg hxs] at hle
      exact absurd (h1.trans hle) (by decide)
  · rw [hcount] at hx
    rcases eq_or_ne x st with rfl | hxs
    · rw [if_pos rfl] at hx
      rw [detached_stat_self]
      exact if_neg fun h => hx ⟨h.2, h.1.ge, h.1.le⟩
    · rw [detached_stat_of_ne hxs]
  · rcases eq_or_ne x st with rfl | hxs
    · rw [detached_stat_self]
    · rw [detached_stat_of_ne hxs]

theorem Emptied.refl (h : (s.atts p).att a = false ∨ (s.attach a).stat = none) :
    Emptied p [a] s s := by
  have hnone : ∀ x, s.mineAt p x a = false := by
    intro x
    rw [Bool.eq_false_iff]
    intro hmine
    obtain ⟨h1, h2⟩ := mineAt_eq_true.mp hmine
    rcases h with h | h
    · rw [h] at h1
      cases h1
    · rw [h] at h2
      cases h2
  have hcount : ∀ x, [a].countP (s.mineAt p x) = 0 := fun x => by
    rw [List.countP_singleton, if_neg (by rw [hnone x]; exact Bool.false_ne_true)]
  refine ⟨rfl, rfl, fun b hb h1 h2 => ?_, fun _ _ => rfl, fun _ => rfl, fun x b => ?_, fun x => ?_,
    fun x _ h1 hle => ?_, fun _ _ => rfl, fun _ => rfl⟩
  · obtain rfl := List.mem_singleton.mp hb
    rcases h with h | h
    · rw [h] at h1
      cases h1
    · exact absurd h h2
  · refine ⟨fun hatt => ⟨hatt, fun hin => ?_⟩, And.left⟩
    rw [List.mem_singleton.mp hin.1, hnone x] at hin
    exact Bool.false_ne_true hin.2
  · rw [hcount]
    simp
  · rw [hcount] at hle
    exact absurd (h1.trans hle) (by decide)

theorem Emptied.mineAt_eq (h : Emptied p xs s t) (st : ℕ) : t.mineAt p st = s.mineAt p st := by
  funext a
  unfold mineAt
  rw [h.atts, h.stat]

theorem Emptied.cons (h : Emptied p [a] s r) (h' : Emptied p xs r t) (ha : a ∉ xs) :
    Emptied p (a :: xs) s t := by
  have hmine := h.mineAt_eq
  have hone : ∀ x, [a].countP (s.mineAt p x) ≤ 1 := fun x => List.countP_le_length
  have hcount : ∀ x, (a :: xs).countP (s.mineAt p x) =
      [a].countP (s.mineAt p x) + xs.countP (r.mineAt p x) := by
    intro x
    rw [hmine, ← List.countP_append]
    rfl
  have hatts : ∀ b, (r.atts p).att b = (s.atts p).att b := fun b => by rw [h.atts]
  refine ⟨h'.atts.trans h.atts, h'.opened.trans h.opened, fun b hb h1 h2 => ?_, fun b hb => ?_,
    fun b => (h'.stat b).trans (h.stat b), fun x b => ?_, fun x => ?_, fun x hx h1 hle => ?_,
    fun x hx => ?_, fun x => (h'.userMode x).trans (h.userMode x)⟩
  · rcases eq_or_ne b a with rfl | hne
    · rw [h'.kept b fun hin => ha hin.1, h.gone b (List.mem_singleton_self b) h1 h2]
    · have hsame := h.kept b fun hin => hne (List.mem_singleton.mp hin.1)
      rw [h'.gone b ((List.mem_cons.mp hb).resolve_left hne) ((hatts b).trans h1)
        (by rw [hsame]; exact h2), hsame]
  · rw [h'.kept b fun hin => hb ⟨List.mem_cons_of_mem a hin.1, (hatts b).symm.trans hin.2⟩,
      h.kept b fun hin => hb ⟨List.mem_cons.mpr (.inl (List.mem_singleton.mp hin.1)), hin.2⟩]
  · rw [h'.att, h.att, hmine]
    simp only [List.mem_cons, List.not_mem_nil, or_false]
    tauto
  · rw [h'.natts, h.natts, hcount]
    push_cast
    ring
  · rw [hcount] at hle
    by_cases hrest : 1 ≤ (r.stat x).nattachments
    · refine h'.idle x hx hrest ?_
      rw [h.natts]
      push_cast at hle ⊢
      omega
    · rw [h'.status x fun hin => hrest hin.2.1]
      have hnatts := h.natts x
      have hle1 := hone x
      exact h.idle x hx h1 (by omega)
  · rw [hcount] at hx
    have hnatts := h.natts x
    have hle1 := hone x
    rw [h'.status x fun hin => hx ⟨hin.1, by omega, by push_cast; omega⟩,
      h.status x fun hin => hx ⟨hin.1, hin.2.1, by push_cast; omega⟩]

theorem detachAll_emptied (c : TableSizes) (s : AttachmentTables) (p : ℕ) :
    Emptied p (List.range c.nattachments) s (s.detachAll c p) := by
  have hall : ∀ xs : List ℕ, xs.Nodup → (∀ a ∈ xs, a < c.nattachments) → ∀ s : AttachmentTables,
      Emptied p xs s (xs.foldl (fun s a =>
        if (s.atts p).att a then final (etStationDetach c true none a) s else s) s) := by
    intro xs hnodup hlt
    induction xs with
    | nil =>
        intro s
        exact ⟨rfl, rfl, fun a ha => absurd ha List.not_mem_nil, fun _ _ => rfl, fun _ => rfl,
          fun _ _ => ⟨fun h => ⟨h, fun hin => List.not_mem_nil hin.1⟩, And.left⟩, fun _ => by simp,
          fun _ _ h1 hle => absurd (h1.trans hle) (by simp), fun _ _ => rfl, fun _ => rfl⟩
    | cons a xs ih =>
        intro s
        obtain ⟨ha, hxs⟩ := List.nodup_cons.mp hnodup
        have hone : Emptied p [a] s
            (if (s.atts p).att a then final (etStationDetach c true none a) s else s) := by
          split
          case isTrue hmine =>
            rw [final_etStationDetach (hlt a List.mem_cons_self)]
            cases hstat : (s.attach a).stat with
            | none => exact .refl (.inr hstat)
            | some st => exact detached_emptied hmine hstat
          case isFalse hno => exact .refl (.inl (Bool.eq_false_iff.mpr hno))
        exact hone.cons (ih hxs (fun b hb => hlt b (List.mem_cons_of_mem a hb)) _) ha
  exact hall _ List.nodup_range (fun a ha => List.mem_range.mp ha) s

/-! ## The whole clean-up -/

section CleanUp

variable (c) (s) (p)

/-- The tables when the process has no attachments any more. -/
def emptied : AttachmentTables := (s.etFixAttachments c).detachAll c p

theorem cleanUp_attach : (s.cleanUp c p).attach = (s.emptied c p).attach := rfl

theorem cleanUp_opened : (s.cleanUp c p).opened = Function.update (s.emptied c p).opened p false :=
  rfl

theorem cleanUp_used (a : ℕ) : (s.cleanUp c p).Used a ↔ (s.emptied c p).Used a := Iff.rfl

theorem cleanUp_stat (x : ℕ) : ((s.cleanUp c p).stat x).att = ((s.emptied c p).stat x).att ∧
    ((s.cleanUp c p).stat x).status = ((s.emptied c p).stat x).status ∧
    ((s.cleanUp c p).stat x).userMode = ((s.emptied c p).stat x).userMode := by
  unfold cleanUp etFixNatts
  dsimp only
  split <;> exact ⟨rfl, rfl, rfl⟩

/-- The count of a station: it is set right where the station is active. -/
theorem cleanUp_statCount (x : ℕ) : ((s.cleanUp c p).stat x).nattachments =
    if x < c.nstations ∧ ((s.emptied c p).stat x).status = .active then
      countAtts c ((s.emptied c p).stat x).att
    else ((s.emptied c p).stat x).nattachments := by
  by_cases h : x < c.nstations ∧ ((s.emptied c p).stat x).status = .active
  · rw [if_pos h]
    exact congrArg AttStation.nattachments (if_pos h)
  · rw [if_neg h]
    exact congrArg AttStation.nattachments (if_neg h)

theorem cleanUp_atts_self : (s.cleanUp c p).atts p = .init := by
  have hclosed : ((s.emptied c p).etInitProcess p).opened p = false := Function.update_self ..
  have hno : ¬ (p < c.nprocesses ∧ ((s.emptied c p).etInitProcess p).opened p = true) := fun h =>
    Bool.false_ne_true (hclosed.symm.trans h.2)
  exact (if_neg hno).trans (Function.update_self ..)

theorem cleanUp_atts_of_ne {q : ℕ} (hq : q ≠ p) :
    ((s.cleanUp c p).atts q).att = ((s.emptied c p).atts q).att ∧
      ((s.cleanUp c p).atts q).nattachments =
        if q < c.nprocesses ∧ (s.emptied c p).opened q = true then
          countAtts c ((s.emptied c p).atts q).att
        else ((s.emptied c p).atts q).nattachments := by
  have hatts : ((s.emptied c p).etInitProcess p).atts q = (s.emptied c p).atts q :=
    Function.update_of_ne hq ..
  have hopened : ((s.emptied c p).etInitProcess p).opened q = (s.emptied c p).opened q :=
    Function.update_of_ne hq ..
  rw [← hatts, ← hopened]
  by_cases h : q < c.nprocesses ∧ ((s.emptied c p).etInitProcess p).opened q = true
  · rw [if_pos h]
    have heq : (s.cleanUp c p).atts q = _ := if_pos h
    rw [heq]
    exact ⟨rfl, rfl⟩
  · rw [if_neg h]
    have heq : (s.cleanUp c p).atts q = _ := if_neg h
    rw [heq]
    exact ⟨rfl, rfl⟩

theorem cleanUp_count : (s.cleanUp c p).nattachments = ((List.range c.nstations).map fun x =>
    if ((s.cleanUp c p).stat x).status = .active then ((s.cleanUp c p).stat x).nattachments
    else 0).sum := by
  have hstatus : ∀ x, ((s.cleanUp c p).stat x).status = ((s.emptied c p).stat x).status :=
    fun x => (cleanUp_stat c s p x).2.1
  simp only [hstatus]
  rfl

end CleanUp

end AttachmentTables

end EventTransfer
