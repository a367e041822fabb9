import EventTransfer.AttachmentCrash

/-!
# Dying in an attach or a detach

The clean-up wipes out an attachment that no active station knows of, and detaches those of the dead
process.  Both counts it takes anew, but the count of a station only if the station is active, and a
station becomes idle only when its count comes down from `1`.  So the repair of the station depends on
how far the call was.

* `AttachPhase`, `DetachPhase` — how far a call can be.
* `AttachHarmless`, `DetachHarmless` — where the process may die.
* `attach_crash_iff`, `detach_crash_iff` — from there, and from nowhere else, the
  clean-up leaves consistent tables without the attachments of the process.
-/

namespace EventTransfer

open StoreProgram Prog FenceState Tally

namespace AttachmentTables

variable {c : TableSizes} {r s t u : AttachmentTables} {a b i st p q x : ℕ}

/-! ## How far a call is -/

/-- **How far an attach is.**  The station has not counted the attachment yet (`early`); or it has,
but not noted it in its array (`counted`); or it has done both, and may be active (`registered`). -/
inductive AttachPhase (c : TableSizes) (p i st : ℕ) (r t : AttachmentTables) : Prop
  | early (near : Near c p i st r t) (stat : t.stat = r.stat)
      (used : t.Used i ∨ (t.atts p).att i = false ∧ (t.attach i).active = false)
  | counted (near : Near c p i st r t) (used : t.Used i)
      (stat : t.stat st = { r.stat st with nattachments := (r.stat st).nattachments + 1 })
  | registered (near : Near c p i st r t) (mine : (t.atts p).att i = true) (used : t.Used i)
      (att : (t.stat st).att i = true)
      (natts : (t.stat st).nattachments = (r.stat st).nattachments + 1)

/-- **How far a detach is.**  The station counts the attachment yet (`early`); or it does not, but the
process still has it in its array (`counted`); or it is gone from both (`gone`). -/
inductive DetachPhase (c : TableSizes) (p i st : ℕ) (r t : AttachmentTables) : Prop
  | early (near : Near c p i st r t) (mine : (t.atts p).att i = true) (kept : ¬ t.Lost c i)
      (natts : (t.stat st).nattachments = (r.stat st).nattachments)
  | counted (near : Near c p i st r t) (mine : (t.atts p).att i = true) (kept : ¬ t.Lost c i)
      (natts : (t.stat st).nattachments = (r.stat st).nattachments - 1)
  | gone (near : Near c p i st r t) (mine : (t.atts p).att i = false) (unused : ¬ t.Used i)
      (passive : (t.attach i).active = false) (att : (t.stat st).att i = false)
      (natts : (t.stat st).nattachments = (r.stat st).nattachments - 1)
      (idle : (t.stat st).nattachments = 0 → st ≠ 0 → (t.stat st).status ≠ .active)

/-- **Where a process may die in an attach**: at GRAND_CENTRAL; before the station has counted the
attachment; before it has noted it, if others are attached; and when the station is active. -/
def AttachHarmless (c : TableSizes) (p st : ℕ) (r t : AttachmentTables) : Prop :=
  st = 0 ∨ (t.stat st).nattachments = (r.stat st).nattachments ∨
    ((t.stat st).att = (r.stat st).att ∧ 0 < others c r p st) ∨
    ((t.stat st).att ≠ (r.stat st).att ∧ (t.stat st).status = .active)

/-- **Where a process may die in a detach**: at GRAND_CENTRAL; while the station counts the
attachment; when it is gone from the array of the process; and anywhere, if two others are attached. -/
def DetachHarmless (c : TableSizes) (p a st : ℕ) (r t : AttachmentTables) : Prop :=
  st = 0 ∨ (t.stat st).nattachments = (r.stat st).nattachments ∨ (t.atts p).att a = false ∨
    1 < others c r p st

/-! ## Stores that stay near -/

section Stores

variable (h : Near c p i st r t)

include h

theorem Near.setEntry {f : AttachEntry → AttachEntry}
    (hf : (t.atts p).att i = true → (f (t.attach i)).stat = some st) :
    Near c p i st r (t.setEntry i f) where
  attach a ha := (Function.update_of_ne ha ..).trans (h.attach a ha)
  stat := h.stat
  userMode := h.userMode
  att := h.att
  status := h.status
  grandCentral := h.grandCentral
  proc := h.proc
  mine := h.mine
  there hmine := by
    show (Function.update t.attach i (f (t.attach i)) i).stat = some st
    rw [Function.update_self]
    exact hf hmine
  opened := h.opened

theorem Near.addAttachments (d : ℤ) : Near c p i st r (t.addAttachments d) :=
  ⟨h.attach, h.stat, h.userMode, h.att, h.status, h.grandCentral, h.proc, h.mine, h.there, h.opened⟩

theorem Near.setProc {f : ProcAtts → ProcAtts}
    (hmine : ∀ a, a ≠ i → (f (t.atts p)).att a = (t.atts p).att a)
    (hthere : (f (t.atts p)).att i = true → (t.attach i).stat = some st) :
    Near c p i st r (t.setProc p f) where
  attach := h.attach
  stat := h.stat
  userMode := h.userMode
  att := h.att
  status := h.status
  grandCentral := h.grandCentral
  proc q hq := (Function.update_of_ne hq ..).trans (h.proc q hq)
  mine a ha := by
    show (Function.update t.atts p (f (t.atts p)) p).att a = _
    rw [Function.update_self, hmine a ha]
    exact h.mine a ha
  there hin := by
    change (Function.update t.atts p (f (t.atts p)) p).att i = true at hin
    rw [Function.update_self] at hin
    exact hthere hin
  opened := h.opened

theorem Near.setStation {f : AttStation → AttStation}
    (hmode : (f (t.stat st)).userMode = (t.stat st).userMode)
    (hatt : ∀ a, a ≠ i → (f (t.stat st)).att a = (t.stat st).att a)
    (hstatus : (f (t.stat st)).status = .active ∨ (f (t.stat st)).status = (t.stat st).status ∨
      st ≠ 0 ∧ ∀ a, a ≠ i → (r.stat st).att a = false) :
    Near c p i st r (t.setStation st f) := by
  have hself : (t.setStation st f).stat st = f (t.stat st) := Function.update_self ..
  refine ⟨h.attach, fun x hx => (Function.update_of_ne hx ..).trans (h.stat x hx), ?_, fun a ha => ?_,
    ?_, fun h0 => ?_, h.proc, h.mine, h.there, h.opened⟩
  · rw [hself, hmode, h.userMode]
  · rw [hself, hatt a ha, h.att a ha]
  · rw [hself]
    rcases hstatus with hactive | hsame | hnone
    · exact .inl hactive
    · rw [hsame]
      exact h.status
    · exact .inr hnone.2
  · rw [hself]
    rcases hstatus with hactive | hsame | hnone
    · exact hactive
    · rw [hsame]
      exact h.grandCentral h0
    · exact absurd h0 hnone.1

end Stores

section Phases

variable (hr : Subject c p i st r)

include hr

theorem Subject.near : Near c p i st r r where
  attach _ _ := rfl
  stat _ _ := rfl
  userMode := rfl
  att _ _ := rfl
  status := by
    have hcons := hr.consistent
    by_cases h0 : st = 0
    · exact .inl (h0 ▸ hcons.grandCentral)
    by_cases hactive : (r.stat st).status = .active
    · exact .inl hactive
    refine .inr fun a _ => Bool.eq_false_iff.mpr fun hatt => hactive ?_
    rw [hcons.status st hr.stat_lt h0, hcons.statCount st hr.stat_lt, countAtts_pos_iff]
    exact ⟨a, (hcons.used a ((hcons.stat st hr.stat_lt a).mp hatt).1).1, hatt⟩
  grandCentral h0 := h0 ▸ hr.consistent.grandCentral
  proc _ _ := rfl
  mine _ _ := rfl
  there hmine := (hr.mine ((hr.consistent.proc p hr.proc_lt i).mp hmine).1).2
  opened := rfl

/-- **Every crash state of an attach** is in one of the phases. -/
theorem attachStores_phase (hfree : ¬ r.Used i) :
    wp (attachStores (some p) st i) (AttachPhase c p i st r) (fun _ _ => True) r := by
  have hnum : (r.attach i).num = none := not_not.mp hfree
  have hpassive : (r.attach i).active = false := hr.consistent.free i hfree
  have hmine : (r.atts p).att i = false := Bool.eq_false_iff.mpr fun h =>
    hfree ((hr.consistent.proc p hr.proc_lt i).mp h).1
  have hno : (r.atts p).att i = true → False := fun h => Bool.false_ne_true (hmine.symm.trans h)
  have unmade : ∀ t : AttachmentTables, Near c p i st r t → t.stat = r.stat → t.atts = r.atts →
      (t.attach i).active = false → AttachPhase c p i st r t := fun t hnear hstat hatts hact =>
    .early hnear hstat (.inr ⟨by rw [hatts, hmine], hact⟩)
  have h1 := hr.near.addAttachments 1
  have h2 := h1.setEntry (f := fun e => { e with num := none }) fun h => (hno h).elim
  have h3 := h2.setEntry (f := fun e => { e with proc := none }) fun h => (hno h).elim
  have h4 := h3.setEntry (f := fun e => { e with stat := none }) fun h => (hno h).elim
  have h5 := h4.setEntry (f := fun e => { e with
    blocked := false, eventsPut := 0, eventsGet := 0, eventsDump := 0, eventsMake := 0 })
    fun h => (hno h).elim
  have h6 := h5.setEntry (f := fun e => { e with active := false }) fun h => (hno h).elim
  have h7 := h6.setEntry (f := fun e => { e with num := some i }) fun h => (hno h).elim
  have h8 := h7.setEntry (f := fun e => { e with proc := some p }) fun h => (hno h).elim
  have h9 := h8.setEntry (f := fun e => { e with stat := some st }) fun _ => rfl
  have h10 := h9.setEntry (f := fun e => { e with active := true }) fun h => (hno h).elim
  have h11 := h10.setProc (f := fun r => { r with nattachments := r.nattachments + 1 })
    (fun _ _ => rfl) fun h => (hno h).elim
  have h12 := h11.setProc (f := fun r => r.setAtt i true)
    (fun _ ha => Function.update_of_ne ha ..) fun _ => by simp [setEntry, setProc, addAttachments]
  have h13 := h12.setStation (f := fun ps => { ps with nattachments := ps.nattachments + 1 })
    rfl (fun _ _ => rfl) (.inr (.inl rfl))
  have h14 := h13.setStation (f := fun ps => ps.setAtt i true)
    rfl (fun _ ha => Function.update_of_ne ha ..) (.inr (.inl rfl))
  have h15 := h14.setStation (f := fun ps => { ps with status := .active })
    rfl (fun _ _ => rfl) (.inl rfl)
  simp only [attachStores, etInitAttachment, wp_bind, wp_store, and_self_left]
  refine ⟨unmade _ hr.near rfl rfl hpassive, unmade _ h1 rfl rfl hpassive,
    unmade _ h2 rfl rfl ?_, unmade _ h3 rfl rfl ?_, unmade _ h4 rfl rfl ?_, unmade _ h5 rfl rfl ?_,
    unmade _ h6 rfl rfl ?_, .early h7 rfl (.inl ?_), .early h8 rfl (.inl ?_),
    .early h9 rfl (.inl ?_), .early h10 rfl (.inl ?_), .early h11 rfl (.inl ?_),
    .early h12 rfl (.inl ?_), .counted h13 ?_ ?_, .registered h14 ?_ ?_ ?_ ?_,
    .registered h15 ?_ ?_ ?_ ?_, trivial⟩
  all_goals simp [Used, setEntry, setProc, setStation, addAttachments, ProcAtts.setAtt,
    AttStation.setAtt, hpassive]

/-- The last attachment of a station. -/
theorem Subject.att_eq_false_of_last (hatt : (r.stat st).att i = true)
    (hlast : (r.stat st).nattachments = 1) (a : ℕ) (ha : a ≠ i) : (r.stat st).att a = false := by
  have hcons := hr.consistent
  rw [hcons.statCount st hr.stat_lt] at hlast
  have hnone := countAtts_clear hr.lt hatt
  rw [hlast] at hnone
  refine Bool.eq_false_iff.mpr fun hon => absurd hnone (ne_of_gt ?_)
  show 0 < countAtts c (Function.update (r.stat st).att i false)
  refine countAtts_pos_iff.mpr ⟨a, (hcons.used a ((hcons.stat st hr.stat_lt a).mp hon).1).1, ?_⟩
  rw [Function.update_of_ne ha]
  exact hon

/-- **Every crash state of a detach** is in one of the phases. -/
theorem detachStores_phase (hused : r.Used i) :
    wp (detachStores (some p) i st) (DetachPhase c p i st r) (fun _ _ => True) r := by
  have hcons := hr.consistent
  obtain ⟨hproc, hstat⟩ := hr.mine hused
  have hmine : (r.atts p).att i = true := (hcons.proc p hr.proc_lt i).mpr ⟨hused, hproc⟩
  have hatt : (r.stat st).att i = true := (hcons.stat st hr.stat_lt i).mpr ⟨hused, hstat⟩
  have hpos : 0 < (r.stat st).nattachments := by
    rw [hcons.statCount st hr.stat_lt]
    exact countAtts_pos_iff.mpr ⟨i, hr.lt, hatt⟩
  have hactive : (r.stat st).status = .active := by
    by_cases h0 : st = 0
    · exact h0 ▸ hcons.grandCentral
    · exact (hcons.status st hr.stat_lt h0).mpr hpos
  have hkept : ¬ r.Lost c i := fun hlost => hlost.2 st hr.stat_lt ⟨hatt, hactive⟩
  have h1 := hr.near.setEntry (f := fun e => { e with num := none }) fun _ => hstat
  have h2 := h1.setEntry (f := fun e => { e with active := false }) fun _ => by
    simpa [setEntry] using hstat
  have h3 := h2.addAttachments (-1)
  have unused : ∀ t : AttachmentTables, (t.attach i).num = none → ¬ t.Lost c i := fun t hnum hlost =>
    hlost.1 hnum
  -- the stores that come after the last attachment's
  have rest : ∀ t : AttachmentTables, Near c p i st r t → t.atts = r.atts →
      t.attach i = { r.attach i with num := none, active := false } →
      (t.stat st).nattachments = (r.stat st).nattachments →
      ((r.stat st).nattachments = 1 → st ≠ 0 → (t.stat st).status = .idle) →
      wp (do
        store (setStation · st fun ps => { ps with nattachments := ps.nattachments - 1 })
        store (setStation · st fun ps => ps.setAtt i false)
        store (setProc · p fun r => { r with nattachments := r.nattachments - 1 })
        store (setProc · p fun r => r.setAtt i false)) (DetachPhase c p i st r) (fun _ _ => True) t := by
    intro t h4 hatts hattach hnatts hidle
    have hnum : (t.attach i).num = none := by rw [hattach]
    have hmine' : (t.atts p).att i = true := by rw [hatts, hmine]
    have hstat' : (t.attach i).stat = some st := by rw [hattach]; exact hstat
    have h5 := h4.setStation (f := fun ps => { ps with nattachments := ps.nattachments - 1 }) rfl
      (fun _ _ => rfl) (.inr (.inl rfl))
    have h6 := h5.setStation (f := fun ps => ps.setAtt i false)
      rfl (fun _ ha => Function.update_of_ne ha ..) (.inr (.inl rfl))
    have h7 := h6.setProc (f := fun r => { r with nattachments := r.nattachments - 1 })
      (fun _ _ => rfl) fun _ => hstat'
    have h8 := h7.setProc (f := fun r => r.setAtt i false)
      (fun _ ha => Function.update_of_ne ha ..) fun _ => hstat'
    simp only [wp_bind, wp_store, and_self_left]
    refine ⟨.early h4 hmine' (unused t hnum) hnatts, .counted h5 hmine' (unused _ hnum) ?_,
      .counted h6 hmine' (unused _ hnum) ?_, .counted h7 ?_ (unused _ hnum) ?_,
      .gone h8 ?_ (not_not.mpr hnum) ?_ ?_ ?_ ?_, trivial⟩
    all_goals simp [setStation, setProc, AttStation.setAtt, ProcAtts.setAtt, hnatts, hmine', hattach]
    intro hzero h0
    rw [hidle (by omega) h0]
    exact StatStatus.noConfusion
  unfold detachStores
  refine wp_store_bind (.early hr.near hmine hkept rfl) (wp_store_bind
    (.early h1 hmine (unused _ ?_) rfl) (wp_store_bind (.early h2 hmine (unused _ ?_) rfl) ?_))
  · simp [setEntry]
  · simp [setEntry]
  have h3phase : DetachPhase c p i st r _ := .early h3 hmine (unused _ (by
    simp [setEntry, addAttachments])) rfl
  have hattach : ((((r.setEntry i fun e => { e with num := none }).setEntry i fun e =>
      { e with active := false }).addAttachments (-1)).attach i) =
      { r.attach i with num := none, active := false } := by
    simp [setEntry, addAttachments]
  rw [wp_bind, wp_get]
  refine ⟨h3phase, ?_⟩
  rw [wp_bind, wp_when]
  split
  case isTrue hlast =>
    have h4 := h3.setStation (f := fun ps => { ps with status := .idle }) rfl (fun _ _ => rfl)
      (.inr (.inr ⟨hlast.2, hr.att_eq_false_of_last hatt hlast.1⟩))
    rw [wp_store]
    have hrest := rest _ h4 rfl hattach (by simp [setStation, setEntry, addAttachments])
      fun _ _ => by simp [setStation]
    exact ⟨h3phase, hrest.1 _ List.mem_cons_self, hrest⟩
  case isFalse hmore =>
    exact ⟨h3phase, rest _ h3 rfl hattach rfl fun h1 h0 => absurd ⟨h1, h0⟩ hmore⟩

/-! ## The clean-up after each phase -/

/-- What the clean-up detaches of an attachment that was free. -/
theorem Near.toDetach_of_free (h : Near c p i st r t) (hfree : ¬ r.Used i)
    (hno : ¬ (¬ t.Lost c i ∧ (t.atts p).att i = true)) : toDetach c t p st = own c r p st := by
  have hcount := h.toDetach_self hr
  rwa [if_neg hfree, if_neg hno, add_zero, add_zero] at hcount

theorem Subject.natts_eq : (r.stat st).nattachments = others c r p st + own c r p st :=
  (hr.consistent.statCount st hr.stat_lt).trans (others_add_own c r p st).symm

/-- The station has not counted the attachment. -/
theorem repaired_of_early (h : Near c p i st r t) (hfree : ¬ r.Used i) (hstat : t.stat = r.stat)
    (hused : t.Used i ∨ (t.atts p).att i = false ∧ (t.attach i).active = false) :
    Repaired c p r t := by
  have hatt : (r.stat st).att i = false := Bool.eq_false_iff.mpr fun hatt =>
    hfree ((hr.consistent.stat st hr.stat_lt i).mp hatt).1
  have hoff : (t.stat st).att i = false := by rw [hstat, hatt]
  obtain ⟨hclean, hno⟩ : Clean i st (t.cleanUp c p) ∧
      ¬ (¬ t.Lost c i ∧ (t.atts p).att i = true) := by
    by_cases hu : t.Used i
    · have hlost := h.lost_of_off hr hu hoff
      exact ⟨h.clean_of_lost hr hlost hoff, fun hin => hin.1 hlost⟩
    · obtain ⟨hmine, hpassive⟩ := hused.resolve_left hu
      exact ⟨clean_of_unused hu hmine hpassive hoff,
        fun hin => Bool.false_ne_true (hmine.symm.trans hin.2)⟩
  have hdetach := h.toDetach_of_free hr hfree hno
  refine (h.good_iff hr).mpr ⟨hclean, stationRight_of_eq (m := others c r p st)
    (fun h0 => h.grandCentral h0) hr.stat_lt ?_ ?_ (h.active_of_others hr) fun hzero h0 => ?_⟩
  · exact h.count_self hr ((cleanUp_stat c t p st).1 ▸ hclean.off)
  · rw [hstat, hdetach, hr.natts_eq]
  · rw [hdetach, ← hr.natts_eq] at hzero
    rw [hstat, ne_eq, hr.consistent.status st hr.stat_lt h0, hzero]
    exact lt_irrefl 0

/-- The station has counted the attachment, but not noted it. -/
theorem repaired_of_counted_iff (h : Near c p i st r t) (hfree : ¬ r.Used i) (hused : t.Used i)
    (hstat : t.stat st = { r.stat st with nattachments := (r.stat st).nattachments + 1 }) :
    Repaired c p r t ↔ st = 0 ∨ 0 < others c r p st := by
  have hatt : (r.stat st).att i = false := Bool.eq_false_iff.mpr fun hatt =>
    hfree ((hr.consistent.stat st hr.stat_lt i).mp hatt).1
  have hoff : (t.stat st).att i = false := by rw [hstat, hatt]
  have hlost := h.lost_of_off hr hused hoff
  have hclean := h.clean_of_lost hr hlost hoff
  have hdetach := h.toDetach_of_free hr hfree fun hin => hin.1 hlost
  refine (h.good_iff hr).trans ((and_iff_right hclean).trans ?_)
  by_cases h0 : st = 0
  · exact iff_of_true (stationRight_grandCentral h.grandCentral hr.stat_lt h0) (.inl h0)
  · rw [or_iff_right h0]
    refine stationRight_more_iff hr.stat_lt h0
      (h.count_self hr ((cleanUp_stat c t p st).1 ▸ hclean.off)) ?_ (h.active_of_others hr)
    rw [hstat, hdetach]
    exact congrArg (· + 1) hr.natts_eq

/-- The station has noted the attachment. -/
theorem repaired_of_registered_iff (h : Near c p i st r t) (hfree : ¬ r.Used i)
    (hmine : (t.atts p).att i = true) (hused : t.Used i) (hatt : (t.stat st).att i = true)
    (hnatts : (t.stat st).nattachments = (r.stat st).nattachments + 1) :
    Repaired c p r t ↔ (t.stat st).status = .active := by
  refine (h.good_iff hr).trans ⟨fun hgood => ?_, fun hactive => ?_⟩
  · by_contra hidle
    -- no active station knows of it, but its own one has it in its array
    have hlost : t.Lost c i := by
      refine ⟨hused, fun x hx hin => ?_⟩
      rcases eq_or_ne x st with rfl | hne
      · exact hidle hin.2
      · rw [h.stat x hne, hr.att_false hx hne] at hin
        exact Bool.false_ne_true hin.1
    have hoff := hgood.1.off
    rw [(cleanUp_stat c t p st).1, (h.wiped hr hlost).2, hatt] at hoff
    exact Bool.false_ne_true hoff.symm
  · have hkept : ¬ t.Lost c i := fun hlost => hlost.2 st hr.stat_lt ⟨hatt, hactive⟩
    have hclean := h.clean_of_mine hr hkept hmine
    have hdetach := h.toDetach_self hr
    rw [if_neg hfree, if_pos ⟨hkept, hmine⟩, add_zero] at hdetach
    have hown : 0 ≤ own c r p st := countAtts_nonneg _
    have hothers : 0 ≤ others c r p st := countAtts_nonneg _
    refine ⟨hclean, stationRight_of_eq (m := others c r p st) (fun h0 => h.grandCentral h0)
      hr.stat_lt ?_ ?_ (fun _ => hactive) fun hzero _ => ?_⟩
    · exact h.count_self hr ((cleanUp_stat c t p st).1 ▸ hclean.off)
    · rw [hnatts, hdetach, hr.natts_eq, add_assoc]
    · omega

/-- The process's own attachment is detached by the clean-up. -/
theorem Near.toDetach_of_mine (h : Near c p i st r t) (hused : r.Used i) (hkept : ¬ t.Lost c i)
    (hmine : (t.atts p).att i = true) : toDetach c t p st = own c r p st := by
  have hcount := h.toDetach_self hr
  rw [if_pos hused, if_pos ⟨hkept, hmine⟩] at hcount
  exact add_right_cancel hcount

theorem Subject.own_pos (hused : r.Used i) : 0 < own c r p st :=
  countAtts_pos_iff.mpr ⟨i, hr.lt, by rw [hr.own_self, decide_eq_true hused]⟩

/-- The station counts the attachment yet. -/
theorem repaired_of_detach_early (h : Near c p i st r t) (hused : r.Used i)
    (hmine : (t.atts p).att i = true) (hkept : ¬ t.Lost c i)
    (hnatts : (t.stat st).nattachments = (r.stat st).nattachments) : Repaired c p r t := by
  have hclean := h.clean_of_mine hr hkept hmine
  have hdetach := h.toDetach_of_mine hr hused hkept hmine
  have hown := hr.own_pos hused
  have hothers : 0 ≤ others c r p st := countAtts_nonneg _
  refine (h.good_iff hr).mpr ⟨hclean, stationRight_of_eq (m := others c r p st)
    (fun h0 => h.grandCentral h0) hr.stat_lt ?_ ?_ (h.active_of_others hr) fun hzero _ => ?_⟩
  · exact h.count_self hr ((cleanUp_stat c t p st).1 ▸ hclean.off)
  · rw [hnatts, hdetach, hr.natts_eq]
  · omega

/-- The station does not count the attachment any more. -/
theorem repaired_of_detach_counted_iff (h : Near c p i st r t) (hused : r.Used i)
    (hmine : (t.atts p).att i = true) (hkept : ¬ t.Lost c i)
    (hnatts : (t.stat st).nattachments = (r.stat st).nattachments - 1) :
    Repaired c p r t ↔ st = 0 ∨ 1 < others c r p st := by
  have hclean := h.clean_of_mine hr hkept hmine
  have hdetach := h.toDetach_of_mine hr hused hkept hmine
  have hown := hr.own_pos hused
  refine (h.good_iff hr).trans ((and_iff_right hclean).trans ?_)
  by_cases h0 : st = 0
  · exact iff_of_true (stationRight_grandCentral h.grandCentral hr.stat_lt h0) (.inl h0)
  · rw [or_iff_right h0]
    refine stationRight_less_iff hr.stat_lt h0
      (h.count_self hr ((cleanUp_stat c t p st).1 ▸ hclean.off)) ?_ ?_ (h.active_of_others hr)
    · rw [hnatts, hdetach, hr.natts_eq]
    · rw [hdetach]
      exact hown

/-- The attachment is gone. -/
theorem repaired_of_gone (h : Near c p i st r t) (hused : r.Used i)
    (hmine : (t.atts p).att i = false) (hunused : ¬ t.Used i) (hpassive : (t.attach i).active = false)
    (hoff : (t.stat st).att i = false)
    (hnatts : (t.stat st).nattachments = (r.stat st).nattachments - 1)
    (hidle : (t.stat st).nattachments = 0 → st ≠ 0 → (t.stat st).status ≠ .active) :
    Repaired c p r t := by
  have hclean : Clean i st (t.cleanUp c p) := clean_of_unused hunused hmine hpassive hoff
  have hcount := h.toDetach_self hr
  rw [if_pos hused, if_neg fun hin => Bool.false_ne_true (hmine.symm.trans hin.2), add_zero] at hcount
  have heq : (t.stat st).nattachments = others c r p st + toDetach c t p st := by
    rw [hnatts, hr.natts_eq, ← hcount]
    ring
  refine (h.good_iff hr).mpr ⟨hclean, stationRight_of_eq (m := others c r p st)
    (fun h0 => h.grandCentral h0) hr.stat_lt ?_ heq (h.active_of_others hr) fun hzero h0 => ?_⟩
  · exact h.count_self hr ((cleanUp_stat c t p st).1 ▸ hclean.off)
  · exact hidle (heq.trans hzero) h0

end Phases

/-! ## The whole calls -/

theorem AttachPhase.repaired_iff (hr : Subject c p i st r) (hfree : ¬ r.Used i)
    (h : AttachPhase c p i st r t) : Repaired c p r t ↔ AttachHarmless c p st r t := by
  have hatt : (r.stat st).att i = false := Bool.eq_false_iff.mpr fun hatt =>
    hfree ((hr.consistent.stat st hr.stat_lt i).mp hatt).1
  unfold AttachHarmless
  cases h with
  | early near stat used =>
      exact iff_of_true (repaired_of_early hr near hfree stat used) (.inr (.inl (by rw [stat])))
  | counted near used stat =>
      rw [repaired_of_counted_iff hr near hfree used stat, stat]
      simp
  | registered near mine used hon natts =>
      have hne : (t.stat st).att ≠ (r.stat st).att := fun heq =>
        Bool.false_ne_true ((congrFun heq i ▸ hatt).symm.trans hon)
      rw [repaired_of_registered_iff hr near hfree mine used hon natts, natts]
      simp only [hne, ne_eq, not_false_eq_true, true_and, false_and, false_or, add_eq_left,
        one_ne_zero]
      exact ⟨.inr, fun h => h.elim near.grandCentral id⟩

theorem DetachPhase.repaired_iff (hr : Subject c p i st r) (hused : r.Used i)
    (h : DetachPhase c p i st r t) : Repaired c p r t ↔ DetachHarmless c p i st r t := by
  unfold DetachHarmless
  cases h with
  | early near mine kept natts =>
      exact iff_of_true (repaired_of_detach_early hr near hused mine kept natts) (.inr (.inl natts))
  | counted near mine kept natts =>
      rw [repaired_of_detach_counted_iff hr near hused mine kept natts, mine, natts]
      simp
  | gone near mine unused passive att natts idle =>
      exact iff_of_true (repaired_of_gone hr near hused mine unused passive att natts idle)
        (.inr (.inr (.inl mine)))

/-- The entry that an attach takes is free. -/
theorem freeEntry_eq_some (h : r.freeEntry c = some a) : a < c.nattachments ∧ ¬ r.Used a := by
  unfold freeEntry at h
  have hfree := List.find?_some h
  exact ⟨List.mem_range.mp (List.mem_of_find?_eq_some h), not_not.mpr (of_decide_eq_true hfree)⟩

/-- **A process that dies in `et_station_attach`**, wherever it does so. -/
theorem attach_crash_iff (hr : r.Consistent c) (hp : p < c.nprocesses)
    (ht : t ∈ crashStates (etStationAttach c (some p) st) r) :
    Repaired c p r t ↔ AttachHarmless c p st r t := by
  have refused : t ∈ [r] → (Repaired c p r t ↔ AttachHarmless c p st r t) := by
    intro hin
    obtain rfl := List.mem_singleton.mp hin
    exact iff_of_true (hr.repaired hp) (.inr (.inl rfl))
  unfold etStationAttach at ht
  rw [crashStates_bind, crashStates_get, value_get, final_get] at ht
  split at ht
  · exact refused ht
  case isFalse hlt =>
  split at ht
  · exact refused ht
  split at ht
  · exact refused ht
  split at ht
  · exact refused ht
  cases hfree : r.freeEntry c with
  | none =>
      simp only [hfree] at ht
      exact refused ht
  | some i =>
      obtain ⟨hi, hunused⟩ := freeEntry_eq_some hfree
      have hsub : Subject c p i st r := ⟨hr, hp, hi, not_le.mp hlt, fun h => absurd h hunused⟩
      have hphase := (attachStores_phase hsub hunused).1 t (by
        simpa [hfree, crashStates, bind, pure] using ht)
      exact hphase.repaired_iff hsub hunused

/-- **A process that dies in `et_station_detach`**, wherever it does so. -/
theorem detach_crash_iff (hr : r.Consistent c) (hused : r.Used a)
    (hproc : (r.attach a).proc = some p) (hstat : (r.attach a).stat = some st)
    (ht : t ∈ crashStates (etStationDetach c false (some p) a) r) :
    Repaired c p r t ↔ DetachHarmless c p a st r t := by
  obtain ⟨ha, -, -, ⟨st', hst, hst'⟩, hopen⟩ := hr.used a hused
  obtain rfl : st' = st := Option.some.inj (hst'.symm.trans hstat)
  have hsub : Subject c p a st' r :=
    ⟨hr, (hopen p hproc).1, ha, hst, fun _ => ⟨hproc, hstat⟩⟩
  have hphase := (detachStores_phase hsub hused).1 t (by
    simpa [etStationDetach, hstat, not_le.mpr ha, crashStates, bind, pure, Prog.get] using ht)
  exact hphase.repaired_iff hsub hused

end AttachmentTables

end EventTransfer
