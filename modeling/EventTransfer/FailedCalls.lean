import EventTransfer.EventCalls

/-!
# Calls that fail

A call that returns an error should have done nothing.  The event calls read a list and then
prepare the buffers of the events, or prepare the buffers and then write a list; the second half
can fail when the first is done, and prepares the events one by one.  Nothing of this is undone,
but for the ages in the two calls that put events.

* `Unchanged` — what a caller may expect after an error: it owns the events it owned, and the
  lists, ages, marks and buffers are the same.
* `LocalCall.FailsCleanly` — the calls that keep this.  It speaks of the state before the call, the
  arguments and the answers of the operating system.
* `failed_call_keeps_iff` — these are all.
-/

namespace EventTransfer

namespace EventSystem

/-- The data buffer of an event: what `pdata` points to, the size, the file and its mapping. -/
def buffer (s : EventSystem) (e : ℕ) : DataSpace × ℕ × Bool × Bool :=
  (s.pdata e, (s.hdr e).memsize, s.file e, s.mapped e)

/-- **The events are as they were**, for the caller with the attachment `att`. -/
structure Unchanged (att : ℤ) (s t : EventSystem) : Prop where
  owned : ∀ e, t.owner e = att ↔ s.owner e = att
  list : t.list = s.list
  lasthigh : t.lasthigh = s.lasthigh
  age : ∀ e, (t.hdr e).age = (s.hdr e).age
  temp : ∀ e, t.isTemp e = s.isTemp e
  buffer : ∀ e, t.buffer e = s.buffer e

theorem Unchanged.refl (att : ℤ) (s : EventSystem) : Unchanged att s s :=
  ⟨fun _ => Iff.rfl, rfl, rfl, fun _ => rfl, fun _ => rfl, fun _ => rfl⟩

/-- An error that changes nothing keeps what a caller may expect. -/
theorem keeps_of_eq {att : ℤ} {s : EventSystem} {p : Ret × EventSystem} (h : p.2 = s) :
    p.1 ≠ .ok → Unchanged att s p.2 := fun _ => h ▸ Unchanged.refl att s

variable {s : EventSystem} {cfg : EventConfig} {os : OsAnswers} {a : ReadArgs} {r : StationRead}
  {ps size i e : ℕ} {pe : List ℕ} {att : ℤ}

/-! ## Reading -/

/-- A read that takes nothing changes nothing. -/
theorem stationRead_none (h : s.taken a r ps = []) : (s.stationRead a r ps).2 = ([], s) := by
  unfold stationRead
  dsimp only
  split
  case isTrue => rfl
  case isFalse =>
    split
    case isTrue => rfl
    case isFalse hgo =>
      split
      case isTrue => rfl
      case isFalse =>
        have hnone : (r.handOut s.hdr (s.list (.input ps))).1 = [] := by
          unfold taken at h
          rwa [if_neg hgo] at h
        have hperm : ((r.handOut s.hdr (s.list (.input ps))).1 ++
            (r.handOut s.hdr (s.list (.input ps))).2).Perm (s.list (.input ps)) := takeWhere_perm
        have hsub : (r.handOut s.hdr (s.list (.input ps))).2.Sublist (s.list (.input ps)) :=
          takeWhere_snd_sublist
        rw [hnone, List.nil_append] at hperm
        have hsame := hsub.eq_of_length hperm.length_eq
        rw [hnone, hsame]
        unfold setList give
        simp

/-- A read that takes events. -/
theorem stationRead_some (h : s.taken a r ps ≠ []) :
    s.stationRead a r ps = (.ok, s.taken a r ps,
      (s.setList (.input ps) (r.handOut s.hdr (s.list (.input ps))).2).give (s.taken a r ps)
        a.att) := by
  have hgo : ¬ a.interrupt.isSome = true := by
    intro hstop
    unfold taken at h
    rw [if_pos hstop] at h
    exact h rfl
  have htaken : s.taken a r ps = (r.handOut s.hdr (s.list (.input ps))).1 := if_neg hgo
  have hpos := List.length_pos_iff.mpr h
  rw [htaken] at h hpos ⊢
  have hle : (r.handOut s.hdr (s.list (.input ps))).1.length ≤
      min r.num (s.list (.input ps)).length := length_takeWhere_le ..
  have hnum : ¬ r.num < 1 := by omega
  have hlist : s.list (.input ps) ≠ [] := by
    rw [← List.length_pos_iff]
    omega
  unfold stationRead
  dsimp only
  rw [if_neg hnum, if_neg hgo, if_neg]
  rintro (h0 | ⟨h0, -⟩)
  · exact hlist h0
  · exact h h0

/-- The list has become shorter then. -/
theorem handOut_ne (h : s.taken a r ps ≠ []) :
    (r.handOut s.hdr (s.list (.input ps))).2 ≠ s.list (.input ps) := by
  intro hsame
  have hperm : ((r.handOut s.hdr (s.list (.input ps))).1 ++
      (r.handOut s.hdr (s.list (.input ps))).2).Perm (s.list (.input ps)) := takeWhere_perm
  have hlen := hperm.length_eq
  rw [List.length_append, hsame] at hlen
  unfold taken at h
  split at h
  · exact h rfl
  · exact h (List.length_eq_zero_iff.mp (by omega))

/-- What is kept of a read that has taken events is not what was there. -/
theorem not_unchanged_of_taken (h : s.taken a r ps ≠ []) {t : EventSystem}
    (ht : t.list = (s.stationRead a r ps).2.2.list) : ¬ Unchanged a.att s t := by
  intro hsame
  have hlist := congrFun (hsame.list.symm.trans ht) (.input ps)
  rw [stationRead_some h] at hlist
  unfold setList give at hlist
  dsimp only at hlist
  rw [Function.update_self] at hlist
  exact handOut_ne h hlist.symm

/-! ## New events -/

/-- The value of `sys->ntemps` with which a call finds room for one more temporary event: at its
first try or after one of its waits. -/
def firstRoom (cfg : EventConfig) (ntemps : ℤ) (waits : List ℤ) : Option ℤ :=
  (ntemps :: waits).find? (· < cfg.ntemps)

/-- **Temporary buffers for `n` events can be made**: there is room for each, in time, and the
operating system makes its file. -/
def canMakeAll (cfg : EventConfig) (os : OsAnswers) : ℕ → ℕ → ℤ → Bool
  | _, 0, _ => true
  | i, n + 1, ntemps =>
      (firstRoom cfg ntemps (os.waits i)).any fun m =>
        os.create i && canMakeAll cfg os (i + 1) n (m + 1)

theorem etEventMake_ok_iff {create : Bool} :
    (s.etEventMake cfg create size e).1 = .ok ↔ s.ntemps < cfg.ntemps ∧ create = true := by
  unfold etEventMake
  split
  case isTrue hmany => exact iff_of_false nofun fun h => absurd h.1 (not_lt.mpr hmany)
  case isFalse hroom =>
    cases create with
    | false => exact iff_of_false nofun nofun
    | true => exact iff_of_true rfl ⟨not_le.mp hroom, rfl⟩

theorem etEventMake_toomany_iff {create : Bool} :
    (s.etEventMake cfg create size e).1 = .errorToomany ↔ ¬ s.ntemps < cfg.ntemps := by
  unfold etEventMake
  split
  case isTrue hmany => exact iff_of_true rfl (not_lt.mpr hmany)
  case isFalse hroom => cases create <;> exact iff_of_false nofun fun h => h (not_le.mp hroom)

theorem etEventMake_ntemps {create : Bool} (h : s.ntemps < cfg.ntemps) :
    (s.etEventMake cfg create size e).2.ntemps = s.ntemps + 1 := by
  unfold etEventMake
  rw [if_neg (not_le.mpr h)]
  cases create <;> rfl

/-- The tries that find no room change nothing but the time. -/
theorem tryMake_eq (cfg : EventConfig) (create : Bool) (size e : ℕ) (waits : List ℤ)
    (s : EventSystem) :
    match firstRoom cfg s.ntemps waits with
    | none => (tryMake cfg create size e waits s).1 = .errorToomany
    | some m => tryMake cfg create size e waits s =
        { s with ntemps := m }.etEventMake cfg create size e ∧ m < cfg.ntemps := by
  induction waits generalizing s with
  | nil =>
      unfold firstRoom tryMake
      by_cases hroom : s.ntemps < cfg.ntemps
      · rw [List.find?_cons_of_pos (by simpa using hroom)]
        exact ⟨rfl, hroom⟩
      · rw [List.find?_cons_of_neg (by simpa using hroom)]
        exact etEventMake_toomany_iff.mpr hroom
  | cons n waits ih =>
      unfold firstRoom tryMake
      dsimp only
      by_cases hroom : s.ntemps < cfg.ntemps
      · rw [List.find?_cons_of_pos (by simpa using hroom),
          if_neg fun h => etEventMake_toomany_iff.mp h hroom]
        exact ⟨rfl, hroom⟩
      · rw [List.find?_cons_of_neg (by simpa using hroom),
          if_pos (etEventMake_toomany_iff.mpr hroom)]
        exact ih { s with ntemps := n }

theorem makeAll_ok_iff :
    (s.makeAll cfg os size i pe).1 = .ok ↔ canMakeAll cfg os i pe.length s.ntemps = true := by
  induction pe generalizing s i with
  | nil => exact iff_of_true rfl rfl
  | cons e pe ih =>
      have htry := tryMake_eq cfg (os.create i) size e (os.waits i) s
      unfold makeAll
      rw [List.length_cons]
      unfold canMakeAll
      dsimp only
      cases hroom : firstRoom cfg s.ntemps (os.waits i) with
      | none =>
          rw [hroom] at htry
          rw [if_neg (by rw [htry]; exact fun h => by cases h), htry]
          exact iff_of_false (fun h => by cases h) Bool.false_ne_true
      | some m =>
          rw [hroom] at htry
          obtain ⟨htry, hlt⟩ := htry
          rw [Option.any_some, htry]
          cases hcreate : os.create i with
          | false =>
              have hfail : ({ s with ntemps := m }.etEventMake cfg false size e).1 ≠ .ok :=
                fun h => Bool.noConfusion (etEventMake_ok_iff.mp h).2
              rw [if_neg hfail]
              exact iff_of_false hfail Bool.false_ne_true
          | true =>
              rw [if_pos (etEventMake_ok_iff.mpr ⟨hlt, rfl⟩), ih, etEventMake_ntemps hlt,
                Bool.true_and]

/-- **A call that makes events fails cleanly** if it takes none, if it needs no temporary buffers,
or if it can make them all. -/
def NewFailsCleanly (s : EventSystem) (cfg : EventConfig) (os : OsAnswers) (a : ReadArgs)
    (r : StationRead) (size : ℕ) : Prop :=
  a.accepted = true → (s.attach a.att.toNat).active = true → s.taken a r 0 ≠ [] →
    cfg.eventSize < size → canMakeAll cfg os 0 (s.taken a r 0).length s.ntemps = true

theorem newCall_keeps_iff :
    ((s.newCall cfg os a r size).1 ≠ .ok → Unchanged a.att s (s.newCall cfg os a r size).2) ↔
      s.NewFailsCleanly cfg os a r size := by
  unfold newCall NewFailsCleanly
  cases haccepted : a.accepted with
  | false => exact iff_of_true (keeps_of_eq rfl) nofun
  | true =>
      cases hactive : (s.attach a.att.toNat).active with
      | false => exact iff_of_true (keeps_of_eq rfl) nofun
      | true =>
          simp only [reduceCtorEq, if_false, forall_const]
          by_cases hnone : s.taken a r 0 = []
          case pos =>
            have hread := stationRead_none hnone
            refine iff_of_true ?_ (absurd hnone)
            split
            case isTrue => exact keeps_of_eq (by rw [hread])
            case isFalse =>
              rw [hread]
              refine keeps_of_eq ?_
              unfold makeBuffers
              split <;> rfl
          case neg =>
            have hread := stationRead_some hnone
            have hlist := @not_unchanged_of_taken s a r 0 hnone
            rw [hread] at hlist ⊢
            dsimp only at hlist ⊢
            rw [if_neg (not_not.mpr rfl)]
            have hiff := @makeAll_ok_iff
              ((s.setList (.input 0) (r.handOut s.hdr (s.list (.input 0))).2).give
                (s.taken a r 0) a.att) cfg os size 0 (s.taken a r 0)
            unfold makeBuffers
            by_cases hsize : cfg.eventSize < size
            · rw [if_pos hsize]
              constructor
              · intro h _ _
                refine hiff.mp ?_
                by_contra hno
                exact hlist makeAll_same.list (h hno)
              · intro h hfail
                exact absurd (hiff.mpr (h hnone hsize)) hfail
            · rw [if_neg hsize]
              exact iff_of_true (fun h => absurd rfl h) fun _ h => absurd h hsize

/-! ## Events got -/

theorem attachAll_ok_iff : (s.attachAll os i pe).1 = .ok ↔
    ∀ j e, pe[j]? = some e → s.isTemp e = true → (s.file e && os.attach (i + j)) = true := by
  induction pe generalizing s i with
  | nil => exact iff_of_true rfl fun _ _ h => by cases h
  | cons e pe ih =>
      have hrest : ∀ (t : EventSystem), t.isTemp = s.isTemp → t.file = s.file →
          ((t.attachAll os (i + 1) pe).1 = .ok ↔ ∀ j e', (e :: pe)[j + 1]? = some e' →
            s.isTemp e' = true → (s.file e' && os.attach (i + (j + 1))) = true) := by
        intro t htemp hfile
        rw [ih, htemp, hfile]
        refine forall_congr' fun j => ?_
        rw [List.getElem?_cons_succ, Nat.add_assoc, Nat.add_comm 1 j]
      unfold attachAll
      cases htemp : s.isTemp e with
      | false =>
          rw [if_pos rfl, hrest (s.setPdata e .own) rfl rfl]
          refine ⟨fun h j e' hj => ?_, fun h j => h (j + 1)⟩
          cases j with
          | zero =>
              obtain rfl : e = e' := Option.some.inj hj
              rw [htemp]
              exact fun h => by cases h
          | succ j => exact h j e' hj
      | true =>
          rw [if_neg Bool.false_ne_true.symm]
          cases hattach : s.file e && os.attach i with
          | false =>
              rw [if_pos rfl]
              refine iff_of_false (fun h => by cases h) fun h => ?_
              have h0 := h 0 e rfl htemp
              rw [Nat.add_zero, hattach] at h0
              exact Bool.noConfusion h0
          | true =>
              rw [if_neg Bool.false_ne_true.symm, hrest ((s.setPdata e .tempFile).setMapped e true) rfl rfl]
              refine ⟨fun h j e' hj => ?_, fun h j => h (j + 1)⟩
              cases j with
              | zero =>
                  obtain rfl : e = e' := Option.some.inj hj
                  exact fun _ => hattach
              | succ j => exact h j e' hj

/-- **A call that gets events fails cleanly** if all temporary events it takes can be mapped. -/
def GetFailsCleanly (s : EventSystem) (os : OsAnswers) (a : ReadArgs) (r : StationRead) : Prop :=
  a.accepted = true → (s.attach a.att.toNat).active = true → s.statOf a.att ≠ 0 →
    ∀ j e, (s.taken a r (s.statOf a.att))[j]? = some e → s.isTemp e = true →
      (s.file e && os.attach j) = true

theorem getCall_keeps_iff :
    ((s.getCall os a r).1 ≠ .ok → Unchanged a.att s (s.getCall os a r).2) ↔
      s.GetFailsCleanly os a r := by
  unfold getCall GetFailsCleanly
  cases haccepted : a.accepted with
  | false => exact iff_of_true (keeps_of_eq rfl) nofun
  | true =>
      cases hactive : (s.attach a.att.toNat).active with
      | false => exact iff_of_true (keeps_of_eq rfl) nofun
      | true =>
          simp only [reduceCtorEq, if_false, forall_const]
          by_cases hstat : s.statOf a.att = 0
          · rw [if_pos hstat]
            exact iff_of_true (keeps_of_eq rfl) (absurd hstat)
          rw [if_neg hstat]
          by_cases hnone : s.taken a r (s.statOf a.att) = []
          case pos =>
            have hread := stationRead_none hnone
            refine iff_of_true ?_ ?_
            · split
              case isTrue => exact keeps_of_eq (by rw [hread])
              case isFalse => exact keeps_of_eq (by rw [hread]; rfl)
            · rw [hnone]
              nofun
          case neg =>
            have hread := stationRead_some hnone
            have hlist := @not_unchanged_of_taken s a r (s.statOf a.att) hnone
            rw [hread] at hlist ⊢
            dsimp only at hlist ⊢
            rw [if_neg (not_not.mpr rfl)]
            have hiff := @attachAll_ok_iff
              ((s.setList (.input (s.statOf a.att)) (r.handOut s.hdr
                (s.list (.input (s.statOf a.att)))).2).give (s.taken a r (s.statOf a.att)) a.att)
              os 0 (s.taken a r (s.statOf a.att))
            simp only [Nat.zero_add] at hiff
            constructor
            · intro h _
              refine hiff.mp ?_
              by_contra hno
              exact hlist attachAll_same.list (h hno)
            · intro h hfail
              exact absurd (hiff.mpr (h hstat)) hfail

/-! ## Events put -/

/-- The list is full: a write is refused. -/
theorem stationNwrite_refused (h : (s.stationNwrite cfg ps pe).1 ≠ .ok) :
    (s.stationNwrite cfg ps pe).2 = s := by
  unfold stationNwrite at h ⊢
  split
  case isTrue => rfl
  case isFalse hne =>
    rw [if_neg hne] at h
    split
    case isTrue => rfl
    case isFalse hroom => exact absurd (by rw [if_neg hroom]) h

theorem stationNwrite_ok_iff (hne : pe ≠ []) : (s.stationNwrite cfg ps pe).1 = .ok ↔
    pe.length ≤ cfg.nevents - (s.list (.output ps)).length := by
  unfold stationNwrite
  rw [if_neg hne]
  split
  case isTrue hfull => exact iff_of_false nofun (not_le.mpr hfull)
  case isFalse hroom => exact iff_of_true rfl (not_lt.mp hroom)

/-- The events that `et_events_put` prepares: those before the first temporary one whose buffer
cannot be unmapped. -/
def prepared (s : EventSystem) (os : OsAnswers) : ℕ → List ℕ → List ℕ
  | _, [] => []
  | i, e :: pe =>
      if (s.isTemp e && !os.munmap i) = true then [] else e :: s.prepared os (i + 1) pe

theorem prepared_congr {t : EventSystem} (h : t.isTemp = s.isTemp) (os : OsAnswers) (i : ℕ)
    (pe : List ℕ) : t.prepared os i pe = s.prepared os i pe := by
  induction pe generalizing i with
  | nil => rfl
  | cons e pe ih =>
      unfold prepared
      rw [h, ih]

/-- **Nothing has been done but to unmap** the buffers of the temporary events of `done`; the ages
are left open. -/
structure OnlyUnmaps (s : EventSystem) (done : List ℕ) (t : EventSystem) : Prop where
  mapped : ∀ e, t.mapped e = if e ∈ done ∧ s.isTemp e = true then false else s.mapped e
  temp : ∀ e, (t.hdr e).temp = (s.hdr e).temp
  memsize : ∀ e, (t.hdr e).memsize = (s.hdr e).memsize
  owner : t.owner = s.owner
  pdata : t.pdata = s.pdata
  file : t.file = s.file
  list : t.list = s.list
  lasthigh : t.lasthigh = s.lasthigh

namespace OnlyUnmaps

variable {t u : EventSystem} {done done' : List ℕ}

theorem refl (s : EventSystem) : OnlyUnmaps s [] s :=
  ⟨fun e => by simp, fun _ => rfl, fun _ => rfl, rfl, rfl, rfl, rfl, rfl⟩

theorem isTemp (h : OnlyUnmaps s done t) : t.isTemp = s.isTemp := by
  funext e
  unfold EventSystem.isTemp
  rw [decide_eq_decide, h.temp]

theorem trans (h : OnlyUnmaps s done t) (h' : OnlyUnmaps t done' u) :
    OnlyUnmaps s (done ++ done') u := by
  refine ⟨fun e => ?_, fun e => (h'.temp e).trans (h.temp e),
    fun e => (h'.memsize e).trans (h.memsize e), h'.owner.trans h.owner, h'.pdata.trans h.pdata,
    h'.file.trans h.file, h'.list.trans h.list, h'.lasthigh.trans h.lasthigh⟩
  rw [h'.mapped, h.mapped, h.isTemp]
  simp only [List.mem_append]
  by_cases hd : e ∈ done <;> by_cases hd' : e ∈ done' <;> cases s.isTemp e <;> simp [hd, hd']

/-- One buffer is unmapped. -/
theorem unmap (s : EventSystem) (e : ℕ) :
    OnlyUnmaps s [e] (if s.isTemp e then s.setMapped e false else s) := by
  cases htemp : s.isTemp e with
  | false =>
      refine ⟨fun x => ?_, fun _ => rfl, fun _ => rfl, rfl, rfl, rfl, rfl, rfl⟩
      rcases eq_or_ne x e with rfl | hx
      · simp [htemp]
      · simp [hx]
  | true =>
      refine ⟨fun x => ?_, fun _ => rfl, fun _ => rfl, rfl, rfl, rfl, rfl, rfl⟩
      rw [if_pos rfl]
      unfold setMapped
      dsimp only
      rcases eq_or_ne x e with rfl | hx
      · simp [htemp]
      · simp [hx]

/-- Headers may change but for the mark and the size. -/
theorem setHdr (h : OnlyUnmaps s done t) {e : ℕ} {k : EventHeader}
    (htemp : k.temp = (t.hdr e).temp) (hsize : k.memsize = (t.hdr e).memsize) :
    OnlyUnmaps s done (t.setHdr e k) := by
  have hhdr : (t.setHdr e k).hdr = Function.update t.hdr e k := rfl
  refine ⟨h.mapped, fun x => ?_, fun x => ?_, h.owner, h.pdata, h.file, h.list, h.lasthigh⟩
  all_goals
    rw [hhdr, Function.update_apply]
    split
  case refine_1.isTrue hx => rw [hx, htemp, h.temp]
  case refine_1.isFalse => exact h.temp x
  case refine_2.isTrue hx => rw [hx, hsize, h.memsize]
  case refine_2.isFalse => exact h.memsize x

/-- **The events are as they were** if the ages are, and nothing was there to unmap. -/
theorem unchanged_iff (h : OnlyUnmaps s done t) :
    Unchanged att s t ↔ (∀ e, (t.hdr e).age = (s.hdr e).age) ∧
      ∀ e ∈ done, ¬ (s.isTemp e = true ∧ s.mapped e = true) := by
  constructor
  · refine fun hsame => ⟨hsame.age, fun e he htemp => ?_⟩
    have hbuffer := congrArg (fun b => b.2.2.2) (hsame.buffer e)
    have hmapped : t.mapped e = s.mapped e := hbuffer
    rw [h.mapped, if_pos ⟨he, htemp.1⟩, htemp.2] at hmapped
    exact Bool.noConfusion hmapped
  · rintro ⟨hage, hmapped⟩
    refine ⟨fun e => by rw [h.owner], h.list, h.lasthigh, hage, congrFun h.isTemp, fun e => ?_⟩
    have hsame : t.mapped e = s.mapped e := by
      rw [h.mapped]
      split
      case isTrue he => exact (Bool.eq_false_iff.mpr fun hm => hmapped e he.1 ⟨he.2, hm⟩).symm
      case isFalse => rfl
    unfold buffer
    rw [h.pdata, h.memsize, h.file, hsame]

end OnlyUnmaps

/-- One event is prepared. -/
def prepare (s : EventSystem) (e : ℕ) : EventSystem :=
  (if s.isTemp e then s.setMapped e false else s).saveAge e

theorem prepare_onlyUnmaps (s : EventSystem) (e : ℕ) : OnlyUnmaps s [e] (s.prepare e) :=
  (OnlyUnmaps.unmap s e).setHdr rfl rfl

theorem prepare_hdr (s : EventSystem) (e x : ℕ) : (s.prepare e).hdr x =
    if x = e then { s.hdr e with modify := some (s.hdr e).age, age := .used } else s.hdr x := by
  unfold prepare saveAge setHdr
  cases s.isTemp e <;> exact Function.update_apply ..

theorem unmapAll_ok_iff : (s.unmapAll os i pe).1 = .ok ↔ s.prepared os i pe = pe := by
  induction pe generalizing s i with
  | nil => exact iff_of_true rfl rfl
  | cons e pe ih =>
      unfold unmapAll prepared
      split
      case isTrue => exact iff_of_false (fun h => by cases h) fun h => by cases h
      case isFalse =>
        rw [List.cons_inj_right, ← prepared_congr (prepare_onlyUnmaps s e).isTemp]
        exact ih

theorem unmapAll_onlyUnmaps : OnlyUnmaps s (s.prepared os i pe) (s.unmapAll os i pe).2 := by
  induction pe generalizing s i with
  | nil => exact .refl s
  | cons e pe ih =>
      unfold unmapAll prepared
      split
      case isTrue => exact .refl s
      case isFalse =>
        have hprepare := prepare_onlyUnmaps s e
        rw [← prepared_congr hprepare.isTemp]
        exact hprepare.trans ih

/-- What the loop makes of the ages: `modify` keeps them, but of an event that occurs twice. -/
theorem unmapAll_age (x : ℕ) :
    ((s.unmapAll os i pe).2.hdr x).age =
        (if x ∈ s.prepared os i pe then .used else (s.hdr x).age) ∧
      ((s.unmapAll os i pe).2.hdr x).modify =
        if x ∈ s.prepared os i pe then
          some (if (s.prepared os i pe).count x = 1 then (s.hdr x).age else .used)
        else (s.hdr x).modify := by
  induction pe generalizing s i with
  | nil => exact ⟨rfl, rfl⟩
  | cons e pe ih =>
      unfold unmapAll prepared
      split
      case isTrue => exact ⟨rfl, rfl⟩
      case isFalse =>
        have hrest := @ih (s.prepare e) (i + 1)
        rw [prepared_congr (prepare_onlyUnmaps s e).isTemp, prepare_hdr] at hrest
        refine ⟨hrest.1.trans ?_, hrest.2.trans ?_⟩
        all_goals
          rcases eq_or_ne x e with rfl | hx
        case refine_1.inl => simp
        case refine_1.inr => simp [hx]
        case refine_2.inl =>
          by_cases hmem : x ∈ s.prepared os (i + 1) pe
          · have hcount := List.count_pos_iff.mpr hmem
            have htwice : ¬ (s.prepared os (i + 1) pe).count x = 0 := by omega
            simp [hmem, htwice]
          · simp [hmem, List.count_eq_zero_of_not_mem hmem]
        case refine_2.inr => simp [hx, hx.symm]

/-- What is put back is what `modify` keeps; and nothing else changes. -/
theorem restoreAll_spec (t : EventSystem) (pe : List ℕ) :
    (∀ {s : EventSystem} {done : List ℕ}, OnlyUnmaps s done t →
      OnlyUnmaps s done (pe.foldl restoreAge t)) ∧
    ∀ x, ((pe.foldl restoreAge t).hdr x).age =
      if x ∉ pe then (t.hdr x).age
      else if pe.count x = 1 then (t.hdr x).modify.getD .used else .used := by
  induction pe generalizing t with
  | nil => exact ⟨fun h => h, fun x => by simp⟩
  | cons e pe ih =>
      have hhdr : ∀ x, (t.restoreAge e).hdr x = if x = e then
          { t.hdr e with age := (t.hdr e).modify.getD .used, modify := none } else t.hdr x :=
        fun x => Function.update_apply ..
      obtain ⟨honly, hage⟩ := ih (t.restoreAge e)
      refine ⟨fun h => honly (h.setHdr rfl rfl), fun x => ?_⟩
      rw [List.foldl_cons, hage, hhdr]
      rcases eq_or_ne x e with rfl | hx
      · by_cases hmem : x ∈ pe
        · have hcount := List.count_pos_iff.mpr hmem
          have htwice : ¬ pe.count x = 0 := by omega
          simp [hmem, htwice]
        · simp [hmem, List.count_eq_zero_of_not_mem hmem]
      · simp [hx, hx.symm]

/-- **A call that puts events fails cleanly** if, of the events it prepares before one of them
cannot be unmapped, none is new and none is mapped; or if all are prepared and the list has no
room for them, none is mapped, and none that occurs twice is new. -/
def PutFailsCleanly (s : EventSystem) (cfg : EventConfig) (os : OsAnswers) (att : ℤ)
    (pe : List ℕ) : Prop :=
  0 ≤ att → (∀ e ∈ pe, (s.hdr e).length ≤ (s.hdr e).memsize ∧ s.owner e = att) →
    (s.prepared os 0 pe ≠ pe → ∀ e ∈ s.prepared os 0 pe,
      (s.hdr e).age = .used ∧ ¬ (s.isTemp e = true ∧ s.mapped e = true)) ∧
    (s.prepared os 0 pe = pe → cfg.nevents - (s.list (.output (s.statOf att))).length < pe.length →
      ∀ e ∈ pe, (1 < pe.count e → (s.hdr e).age = .used) ∧
        ¬ (s.isTemp e = true ∧ s.mapped e = true))

theorem etEventsPut_keeps_iff {pe : Option (List ℕ)} :
    ((s.etEventsPut cfg os att pe).1 ≠ .ok → Unchanged att s (s.etEventsPut cfg os att pe).2) ↔
      ∀ es, pe = some es → s.PutFailsCleanly cfg os att es := by
  cases pe with
  | none => exact iff_of_true (keeps_of_eq rfl) nofun
  | some es =>
      simp only [Option.some.injEq, forall_eq']
      unfold etEventsPut PutFailsCleanly
      dsimp only
      by_cases hnil : es = []
      · rw [if_pos hnil, hnil]
        exact iff_of_true (keeps_of_eq rfl) fun _ _ => ⟨fun h => absurd rfl h, nofun⟩
      rw [if_neg hnil]
      by_cases hatt : att < 0
      · rw [if_pos hatt]
        exact iff_of_true (keeps_of_eq rfl) fun h => absurd hatt (not_lt.mpr h)
      rw [if_neg hatt]
      by_cases hbad : ∃ e ∈ es, (s.hdr e).memsize < (s.hdr e).length ∨ s.owner e ≠ att
      · rw [if_pos hbad]
        refine iff_of_true (keeps_of_eq rfl) fun _ hgood => ?_
        obtain ⟨e, he, hlong | howner⟩ := hbad
        · exact absurd (hgood e he).1 (not_le.mpr hlong)
        · exact absurd (hgood e he).2 howner
      rw [if_neg hbad]
      have hgood : ∀ e ∈ es, (s.hdr e).length ≤ (s.hdr e).memsize ∧ s.owner e = att := by
        intro e he
        by_contra hno
        exact hbad ⟨e, he, by rwa [not_and_or, not_le] at hno⟩
      rw [forall_prop_of_true (not_lt.mp hatt), forall_prop_of_true hgood]
      have honly := @unmapAll_onlyUnmaps s os 0 es
      by_cases hall : s.prepared os 0 es = es
      case neg =>
        have hfail : (s.unmapAll os 0 es).1 ≠ .ok := fun h => hall (unmapAll_ok_iff.mp h)
        rw [if_pos hfail, forall_prop_of_true hfail, honly.unchanged_iff]
        simp only [hall, ne_eq, not_false_eq_true, forall_const, false_imp_iff, and_true]
        rw [forall₂_and]
        refine and_congr_left fun _ => forall_congr' fun e => ?_
        rw [(unmapAll_age e).1]
        by_cases he : e ∈ s.prepared os 0 es
        · rw [if_pos he, forall_prop_of_true he, eq_comm]
        · rw [if_neg he]
          exact iff_of_true rfl (absurd · he)
      case pos =>
        rw [if_neg (not_not.mpr (unmapAll_ok_iff.mpr hall))]
        have hroom : ((s.unmapAll os 0 es).2.stationNwrite cfg (s.statOf att) es).1 = .ok ↔
            ¬ cfg.nevents - (s.list (.output (s.statOf att))).length < es.length := by
          rw [stationNwrite_ok_iff hnil, honly.list, not_lt]
        by_cases hfull : cfg.nevents - (s.list (.output (s.statOf att))).length < es.length
        case neg =>
          rw [if_neg (not_not.mpr (hroom.mpr hfull))]
          exact iff_of_true (fun h => absurd (hroom.mpr hfull) h)
            ⟨fun h => absurd hall h, fun _ h => absurd h hfull⟩
        case pos =>
          have hfail := fun h => hroom.mp h hfull
          have hsame := stationNwrite_refused hfail
          obtain ⟨hkept, hage⟩ := restoreAll_spec (s.unmapAll os 0 es).2 es
          rw [if_pos hfail, hsame, forall_prop_of_true hfail, (hkept honly).unchanged_iff]
          simp only [hall, ne_eq, not_true_eq_false, false_imp_iff, true_and, hfull, forall_const]
          rw [forall₂_and]
          refine and_congr_left fun _ => forall_congr' fun e => ?_
          have hkeep := @unmapAll_age s os 0 es e
          rw [hall] at hkeep
          rw [hage, hkeep.1, hkeep.2]
          by_cases he : e ∈ es
          · have hcount := List.count_pos_iff.mpr he
            simp only [he, not_true_eq_false, if_false, if_true, Option.getD_some, forall_const]
            by_cases hone : es.count e = 1
            · simp [hone]
            · have htwice : 1 < es.count e := by omega
              simp [hone, htwice, eq_comm]
          · simp [he]

theorem etEventPut_keeps_iff {pe : Option ℕ} :
    ((s.etEventPut cfg os att pe).1 ≠ .ok → Unchanged att s (s.etEventPut cfg os att pe).2) ↔
      ∀ e, pe = some e → s.PutFailsCleanly cfg os att [e] := by
  cases pe with
  | none => exact iff_of_true (keeps_of_eq rfl) nofun
  | some e =>
      simp only [Option.some.injEq, forall_eq']
      unfold etEventPut PutFailsCleanly
      dsimp only
      simp only [List.forall_mem_singleton]
      by_cases hatt : att < 0
      · rw [if_pos hatt]
        exact iff_of_true (keeps_of_eq rfl) fun h => absurd hatt (not_lt.mpr h)
      rw [if_neg hatt]
      by_cases hlong : (s.hdr e).memsize < (s.hdr e).length
      · rw [if_pos hlong]
        exact iff_of_true (keeps_of_eq rfl) fun _ h => absurd h.1 (not_le.mpr hlong)
      rw [if_neg hlong]
      by_cases howner : s.owner e ≠ att
      · rw [if_pos howner]
        exact iff_of_true (keeps_of_eq rfl) fun _ h => absurd h.2 howner
      have hgood : (s.hdr e).length ≤ (s.hdr e).memsize ∧ s.owner e = att :=
        ⟨not_lt.mp hlong, not_not.mp howner⟩
      rw [if_neg howner, forall_prop_of_true (not_lt.mp hatt), forall_prop_of_true hgood]
      unfold prepared
      by_cases hstuck : (s.isTemp e && !os.munmap 0) = true
      · rw [if_pos hstuck, if_pos hstuck]
        exact iff_of_true (keeps_of_eq rfl) ⟨fun _ => nofun, nofun⟩
      rw [if_neg hstuck, if_neg hstuck]
      have hone : s.prepared os (0 + 1) [] = [] := rfl
      have honly := OnlyUnmaps.unmap s e
      set t := if s.isTemp e then s.setMapped e false else s with ht
      have hhdr : t.hdr = s.hdr := by
        rw [ht]
        split <;> rfl
      have hne : [e] ≠ [] := nofun
      have hroom : ((t.setAge e .used).stationNwrite cfg (s.statOf att) [e]).1 = .ok ↔
          ¬ cfg.nevents - (s.list (.output (s.statOf att))).length < [e].length := by
        rw [stationNwrite_ok_iff hne, not_lt, ← honly.list]
        rfl
      by_cases hfull : cfg.nevents - (s.list (.output (s.statOf att))).length < [e].length
      case neg =>
        rw [if_neg (not_not.mpr (hroom.mpr hfull))]
        exact iff_of_true (fun h => absurd (hroom.mpr hfull) h)
          ⟨fun h => absurd rfl h, fun _ h => absurd h hfull⟩
      case pos =>
        have hfail := fun h => hroom.mp h hfull
        have hused : OnlyUnmaps s [e] (t.setAge e .used) := honly.setHdr rfl rfl
        have hkept : OnlyUnmaps s [e] ((t.setAge e .used).setAge e (t.hdr e).age) :=
          hused.setHdr rfl rfl
        have hage : ∀ x, ((((t.setAge e .used).setAge e (t.hdr e).age).hdr x)).age =
            (s.hdr x).age := by
          intro x
          unfold setAge setHdr
          dsimp only
          rcases eq_or_ne x e with rfl | hx
          · rw [Function.update_self, hhdr]
          · rw [Function.update_of_ne hx, Function.update_of_ne hx, hhdr]
        rw [if_pos hfail, stationNwrite_refused hfail, forall_prop_of_true hfail,
          hkept.unchanged_iff]
        simp only [hone, ne_eq, not_true_eq_false, false_imp_iff, true_and, hfull, forall_const,
          List.forall_mem_singleton, List.count_singleton_self, lt_self_iff_false]
        exact and_iff_right hage

/-! ## Events dumped -/

theorem stationNdump_refused (h : (s.stationNdump cfg pe).1 ≠ .ok) :
    (s.stationNdump cfg pe).2 = s := by
  unfold stationNdump at h ⊢
  dsimp only at h ⊢
  split
  case isTrue => rfl
  case isFalse hne =>
    rw [if_neg hne] at h
    split
    case isTrue => rfl
    case isFalse hroom => exact absurd (by rw [if_neg hroom]) h

theorem stationNdump_ok_iff (hne : pe ≠ []) : (s.stationNdump cfg pe).1 = .ok ↔
    pe.length ≤ cfg.nevents - (s.list (.input 0)).length := by
  unfold stationNdump Post.put
  dsimp only
  rw [if_neg hne]
  by_cases hfull : cfg.nevents - (s.list (.input 0)).length < pe.length
  · rw [if_pos hfull]
    exact iff_of_false nofun (not_le.mpr hfull)
  · rw [if_neg hfull]
    exact iff_of_true rfl (not_lt.mp hfull)

/-- **The buffers of all temporary events can be removed**: the operating system does it, each
has its file, and none of them occurs twice. -/
def Removable (s : EventSystem) (os : OsAnswers) (i : ℕ) (pe : List ℕ) : Prop :=
  (∀ j e, pe[j]? = some e → s.isTemp e = true →
    (os.munmap (i + j) && (s.file e && os.unlink (i + j))) = true) ∧ (pe.filter s.isTemp).Nodup

/-- The first temporary event is not removed, and not unmapped either. -/
def stopsAtOnce (s : EventSystem) (os : OsAnswers) : ℕ → List ℕ → Bool
  | _, [] => false
  | i, e :: pe =>
      if s.isTemp e = false then s.stopsAtOnce os (i + 1) pe
      else !os.munmap i || (!(s.file e && os.unlink i) && !s.mapped e)

theorem removable_nil : s.Removable os i [] := ⟨nofun, List.nodup_nil⟩

theorem removable_cons_normal (htemp : s.isTemp e = false) :
    s.Removable os i (e :: pe) ↔ s.Removable os (i + 1) pe := by
  unfold Removable
  rw [List.filter_cons_of_neg (by rw [htemp]; nofun)]
  refine and_congr_left fun _ => ⟨fun h j e' hj => ?_, fun h j e' hj => ?_⟩
  · have := h (j + 1) e' hj
    rwa [← Nat.add_assoc, Nat.add_right_comm] at this
  · cases j with
    | zero =>
        obtain rfl : e = e' := Option.some.inj hj
        rw [htemp]
        nofun
    | succ j =>
        have := h j e' hj
        rwa [Nat.add_right_comm, Nat.add_assoc] at this

theorem removable_cons_temp (htemp : s.isTemp e = true) :
    s.Removable os i (e :: pe) ↔ (os.munmap i && (s.file e && os.unlink i)) = true ∧
      ((s.setMapped e false).setFile e false).Removable os (i + 1) pe := by
  have hfile : ∀ x, ((s.setMapped e false).setFile e false).file x =
      if x = e then false else s.file x := fun x => Function.update_apply ..
  have hsame : ((s.setMapped e false).setFile e false).isTemp = s.isTemp := rfl
  unfold Removable
  rw [List.filter_cons_of_pos htemp, List.nodup_cons, hsame]
  constructor
  · rintro ⟨h, hnotin, hnodup⟩
    refine ⟨h 0 e rfl htemp, fun j e' hj he' => ?_, hnodup⟩
    have hne : e' ≠ e := by
      rintro rfl
      exact hnotin (List.mem_filter.mpr ⟨List.mem_of_getElem? hj, htemp⟩)
    have := h (j + 1) e' hj he'
    rw [hfile, if_neg hne]
    rwa [← Nat.add_assoc, Nat.add_right_comm] at this
  · rintro ⟨h0, h, hnodup⟩
    have hother : ∀ j e', pe[j]? = some e' → s.isTemp e' = true → e' ≠ e ∧
        (os.munmap (i + 1 + j) && (s.file e' && os.unlink (i + 1 + j))) = true := by
      intro j e' hj he'
      have := h j e' hj he'
      rw [hfile] at this
      split at this
      case isTrue => simp at this
      case isFalse hne => exact ⟨hne, this⟩
    refine ⟨fun j e' hj he' => ?_, fun hmem => ?_, hnodup⟩
    · cases j with
      | zero =>
          obtain rfl : e = e' := Option.some.inj hj
          exact h0
      | succ j =>
          have := (hother j e' hj he').2
          rwa [Nat.add_right_comm, Nat.add_assoc] at this
    · obtain ⟨hmem, he'⟩ := List.mem_filter.mp hmem
      obtain ⟨j, hj⟩ := List.getElem?_of_mem hmem
      exact (hother j e hj he').1 rfl

/-- One buffer is removed, or it is an error. -/
theorem tempRemove_cases (s : EventSystem) (os : OsAnswers) (i e : ℕ) :
    (s.tempRemove os i e = (.ok, (s.setMapped e false).setFile e false) ∧
      (os.munmap i && (s.file e && os.unlink i)) = true) ∨
    ((s.tempRemove os i e).1 ≠ .ok ∧ (os.munmap i && (s.file e && os.unlink i)) = false) := by
  unfold tempRemove
  cases os.munmap i with
  | false => exact .inr ⟨nofun, rfl⟩
  | true =>
      cases s.file e && os.unlink i with
      | false => exact .inr ⟨nofun, rfl⟩
      | true => exact .inl ⟨rfl, rfl⟩

theorem removeAll_ok_iff : (s.removeAll os i pe).1 = .ok ↔ s.Removable os i pe := by
  induction pe generalizing s i with
  | nil => exact iff_of_true rfl removable_nil
  | cons e pe ih =>
      unfold removeAll
      cases htemp : s.isTemp e with
      | false =>
          rw [if_pos rfl, removable_cons_normal htemp]
          exact ih
      | true =>
          rw [if_neg Bool.false_ne_true.symm, removable_cons_temp htemp]
          dsimp only
          obtain ⟨heq, hcan⟩ | ⟨hfail, hcannot⟩ := s.tempRemove_cases os i e
          · rw [heq, if_neg (not_not.mpr rfl), ih, hcan]
            exact (and_iff_right rfl).symm
          · rw [if_pos hfail, hcannot]
            exact iff_of_false hfail fun h => Bool.noConfusion h.1

/-- **What the loop leaves alone**: everything but files and mappings; and no file appears. -/
structure OnlyRemoves (s t : EventSystem) : Prop where
  same : t = { s with file := t.file, mapped := t.mapped }
  file : ∀ e, t.file e = true → s.file e = true

theorem OnlyRemoves.refl (s : EventSystem) : OnlyRemoves s s := ⟨rfl, fun _ h => h⟩

theorem removeAll_onlyRemoves : OnlyRemoves s (s.removeAll os i pe).2.2 := by
  induction pe generalizing s i with
  | nil => exact .refl s
  | cons e pe ih =>
      unfold removeAll
      split
      case isTrue => exact ih
      case isFalse =>
        dsimp only
        have hone : OnlyRemoves s (s.tempRemove os i e).2 := by
          unfold tempRemove
          split
          · exact .refl s
          · split
            · exact ⟨rfl, fun _ h => h⟩
            · refine ⟨rfl, fun x hx => ?_⟩
              unfold setFile setMapped at hx
              dsimp only at hx
              rcases eq_or_ne x e with rfl | hne
              · rw [Function.update_self] at hx
                exact Bool.noConfusion hx
              · rwa [Function.update_of_ne hne] at hx
        split
        case isTrue => exact hone
        case isFalse =>
          have hrest := @ih (s.tempRemove os i e).2 (i + 1)
          refine ⟨?_, fun x hx => hone.file x (hrest.file x hx)⟩
          rw [hrest.same, hone.same]

/-- When all are removed, no temporary event of the array has a file, and they are counted. -/
theorem removeAll_ok (h : (s.removeAll os i pe).1 = .ok) :
    (s.removeAll os i pe).2.1 = pe.countP s.isTemp ∧
      ∀ x, (s.removeAll os i pe).2.2.file x =
        if x ∈ pe ∧ s.isTemp x = true then false else s.file x := by
  induction pe generalizing s i with
  | nil => exact ⟨rfl, fun x => by rw [if_neg (fun h => absurd h.1 List.not_mem_nil)]; rfl⟩
  | cons e pe ih =>
      unfold removeAll at h ⊢
      cases htemp : s.isTemp e with
      | false =>
          rw [if_pos htemp] at h
          rw [if_pos rfl, List.countP_cons_of_neg (by rw [htemp]; exact Bool.false_ne_true)]
          obtain ⟨hcount, hfile⟩ := ih h
          refine ⟨hcount, fun x => (hfile x).trans ?_⟩
          rcases eq_or_ne x e with rfl | hx
          · simp [htemp]
          · simp [hx]
      | true =>
          rw [if_neg (by rw [htemp]; exact Bool.false_ne_true.symm)] at h
          rw [if_neg Bool.false_ne_true.symm, List.countP_cons_of_pos htemp]
          dsimp only at h ⊢
          obtain ⟨heq, -⟩ | ⟨hfail, -⟩ := s.tempRemove_cases os i e
          case inr =>
            rw [if_pos hfail] at h
            exact absurd h hfail
          rw [heq, if_neg (not_not.mpr rfl)] at h ⊢
          obtain ⟨hcount, hfile⟩ := ih h
          refine ⟨congrArg (· + 1) hcount, fun x => (hfile x).trans ?_⟩
          have hsame : ((s.setMapped e false).setFile e false).isTemp x = s.isTemp x := rfl
          have hone : ((s.setMapped e false).setFile e false).file x =
              if x = e then false else s.file x := Function.update_apply ..
          rw [hsame, hone]
          rcases eq_or_ne x e with rfl | hx
          · simp [htemp]
          · simp [hx]

theorem OnlyRemoves.unchanged_iff {t : EventSystem} (h : OnlyRemoves s t) :
    Unchanged att s t ↔ ∀ e, t.file e = s.file e ∧ t.mapped e = s.mapped e := by
  constructor
  · intro hsame e
    have hbuffer := hsame.buffer e
    exact ⟨congrArg (fun b => b.2.2.1) hbuffer, congrArg (fun b => b.2.2.2) hbuffer⟩
  · intro hsame
    have heq : t = s := by
      rw [h.same, funext fun e => (hsame e).1, funext fun e => (hsame e).2]
    exact heq ▸ .refl att s

/-- A loop that fails has changed nothing only where it stopped at the first temporary event. -/
theorem removeAll_failed (hfail : (s.removeAll os i pe).1 ≠ .ok) :
    Unchanged att s (s.removeAll os i pe).2.2 ↔ s.stopsAtOnce os i pe = true := by
  induction pe generalizing i with
  | nil => exact absurd rfl hfail
  | cons e pe ih =>
      cases htemp : s.isTemp e with
      | false =>
          have hskip : s.removeAll os i (e :: pe) = s.removeAll os (i + 1) pe := if_pos htemp
          rw [hskip] at hfail ⊢
          unfold stopsAtOnce
          rw [if_pos htemp]
          exact ih hfail
      | true =>
          have honly := @removeAll_onlyRemoves s os i (e :: pe)
          have hno : ¬ s.isTemp e = false := by rw [htemp]; exact Bool.false_ne_true.symm
          have hstops : s.stopsAtOnce os i (e :: pe) =
              (!os.munmap i || (!(s.file e && os.unlink i) && !s.mapped e)) := if_neg hno
          unfold removeAll at honly ⊢
          rw [if_neg hno] at honly ⊢
          rw [hstops]
          unfold tempRemove at honly ⊢
          cases hmunmap : os.munmap i with
          | false =>
              simp only [if_true, ne_eq, reduceCtorEq, not_false_eq_true]
              exact iff_of_true (.refl att s) rfl
          | true =>
              cases hunlink : s.file e && os.unlink i with
              | false =>
                  simp only [hmunmap, hunlink, if_true, if_false, ne_eq, reduceCtorEq,
                    not_false_eq_true] at honly ⊢
                  have hself : ∀ x, (s.setMapped e false).mapped x =
                      if x = e then false else s.mapped x := fun x => Function.update_apply ..
                  refine honly.unchanged_iff.trans ⟨fun h => ?_, fun h x => ⟨rfl, ?_⟩⟩
                  · have hmapped := (h e).2
                    rw [hself, if_pos rfl] at hmapped
                    rw [← hmapped]
                    rfl
                  · have hnot : s.mapped e = false := by simpa using h
                    rw [hself]
                    split
                    case isTrue hx => rw [hx, hnot]
                    case isFalse => rfl
              | true =>
                  simp only [hmunmap, hunlink, if_false, ne_eq, reduceCtorEq, not_true_eq_false]
                    at honly ⊢
                  -- the file that was there is gone
                  have hfile : s.file e = true := (Bool.and_eq_true_iff.mp hunlink).1
                  refine iff_of_false (fun hsame => ?_) Bool.false_ne_true
                  have hkept := (honly.unchanged_iff.mp hsame e).1.trans hfile
                  have hrest := (@removeAll_onlyRemoves ((s.setMapped e false).setFile e false) os
                    (i + 1) pe).file e hkept
                  have hself : ((s.setMapped e false).setFile e false).file e = false :=
                    Function.update_self ..
                  exact Bool.noConfusion (hself.symm.trans hrest)

/-- **A call that dumps events fails cleanly** if it fails to remove a temporary buffer at the
first one, which is not unmapped either; or if all are removed and the list has no room for the
events, none of which is temporary. -/
def DumpFailsCleanly (s : EventSystem) (cfg : EventConfig) (os : OsAnswers) (att : ℤ)
    (pe : List ℕ) : Prop :=
  0 ≤ att → (∀ e ∈ pe, s.owner e = att) →
    (¬ s.Removable os 0 pe → s.stopsAtOnce os 0 pe = true) ∧
    (s.Removable os 0 pe → cfg.nevents - (s.list (.input 0)).length < pe.length →
      ∀ e ∈ pe, s.isTemp e = false)

/-- What is left when the dump itself is refused, with everything removed. -/
theorem unchanged_removed_iff (h : s.Removable os 0 pe) :
    Unchanged att s (s.removeAll os 0 pe).2.2 ↔ ∀ e ∈ pe, s.isTemp e = false := by
  have hok := removeAll_ok_iff.mpr h
  obtain ⟨-, hfile⟩ := removeAll_ok hok
  constructor
  · intro hsame e he
    by_contra htemp
    rw [Bool.not_eq_false] at htemp
    obtain ⟨j, hj⟩ := List.getElem?_of_mem he
    have hthere : s.file e = true := by
      have := h.1 j e hj htemp
      simp only [Bool.and_eq_true] at this
      exact this.2.1
    have hgone := (removeAll_onlyRemoves.unchanged_iff.mp hsame e).1
    rw [hfile, if_pos ⟨he, htemp⟩, hthere] at hgone
    exact Bool.noConfusion hgone
  · intro hnone
    have hskip : ∀ (pe : List ℕ) (i : ℕ), (∀ e ∈ pe, s.isTemp e = false) →
        s.removeAll os i pe = (.ok, 0, s) := by
      intro pe
      induction pe with
      | nil => exact fun _ _ => rfl
      | cons e pe ih =>
          intro i hnone
          unfold removeAll
          rw [if_pos (hnone e List.mem_cons_self)]
          exact ih _ fun x hx => hnone x (List.mem_cons_of_mem e hx)
    rw [hskip pe 0 hnone]
    exact .refl att s

theorem etEventsDump_keeps_iff {pe : Option (List ℕ)} :
    ((s.etEventsDump cfg os att pe).1 ≠ .ok → Unchanged att s (s.etEventsDump cfg os att pe).2) ↔
      ∀ es, pe = some es → s.DumpFailsCleanly cfg os att es := by
  cases pe with
  | none => exact iff_of_true (keeps_of_eq rfl) nofun
  | some es =>
      simp only [Option.some.injEq, forall_eq']
      unfold etEventsDump DumpFailsCleanly
      dsimp only
      by_cases hnil : es = []
      · rw [if_pos hnil, hnil]
        exact iff_of_true (keeps_of_eq rfl) fun _ _ => ⟨fun h => absurd removable_nil h, nofun⟩
      rw [if_neg hnil]
      by_cases hatt : att < 0
      · rw [if_pos hatt]
        exact iff_of_true (keeps_of_eq rfl) fun h => absurd hatt (not_lt.mpr h)
      rw [if_neg hatt]
      by_cases hbad : ∃ e ∈ es, s.owner e ≠ att
      · rw [if_pos hbad]
        obtain ⟨e, he, howner⟩ := hbad
        exact iff_of_true (keeps_of_eq rfl) fun _ h => absurd (h e he) howner
      have hgood : ∀ e ∈ es, s.owner e = att := by
        intro e he
        by_contra hno
        exact hbad ⟨e, he, hno⟩
      rw [if_neg hbad, forall_prop_of_true (not_lt.mp hatt), forall_prop_of_true hgood]
      by_cases hall : s.Removable os 0 es
      case neg =>
        have hfail : (s.removeAll os 0 es).1 ≠ .ok := fun h => hall (removeAll_ok_iff.mp h)
        rw [if_pos hfail, forall_prop_of_true hfail, removeAll_failed hfail]
        simp [hall]
      case pos =>
        rw [if_neg (not_not.mpr (removeAll_ok_iff.mpr hall))]
        have hroom : ((s.removeAll os 0 es).2.2.stationNdump cfg es).1 = .ok ↔
            ¬ cfg.nevents - (s.list (.input 0)).length < es.length := by
          rw [stationNdump_ok_iff hnil, not_lt, removeAll_onlyRemoves.same]
        by_cases hfull : cfg.nevents - (s.list (.input 0)).length < es.length
        case neg =>
          rw [if_neg (not_not.mpr (hroom.mpr hfull))]
          exact iff_of_true (fun h => absurd rfl h)
            ⟨fun h => absurd hall h, fun _ h => absurd h hfull⟩
        case pos =>
          have hfail := fun h => hroom.mp h hfull
          rw [if_pos hfail, forall_prop_of_true hfail, stationNdump_refused hfail,
            unchanged_removed_iff hall]
          simp [hall, hfull]

theorem etEventDump_keeps_iff {pe : Option ℕ} :
    ((s.etEventDump cfg os att pe).1 ≠ .ok → Unchanged att s (s.etEventDump cfg os att pe).2) ↔
      ∀ e, pe = some e → s.DumpFailsCleanly cfg os att [e] := by
  cases pe with
  | none => exact iff_of_true (keeps_of_eq rfl) nofun
  | some e =>
      simp only [Option.some.injEq, forall_eq']
      unfold etEventDump DumpFailsCleanly
      dsimp only
      by_cases hatt : att < 0
      · rw [if_pos hatt]
        exact iff_of_true (keeps_of_eq rfl) fun h => absurd hatt (not_lt.mpr h)
      rw [if_neg hatt]
      by_cases howner : s.owner e ≠ att
      · rw [if_pos howner]
        exact iff_of_true (keeps_of_eq rfl) fun _ h => absurd (h e List.mem_cons_self) howner
      have hgood : ∀ x ∈ [e], s.owner x = att := by
        rw [List.forall_mem_singleton]
        exact not_not.mp howner
      rw [if_neg howner, forall_prop_of_true (not_lt.mp hatt), forall_prop_of_true hgood]
      have hne : [e] ≠ [] := nofun
      by_cases hall : s.Removable os 0 [e]
      case neg =>
        have hfail : (s.removeAll os 0 [e]).1 ≠ .ok := fun h => hall (removeAll_ok_iff.mp h)
        rw [if_pos hfail, forall_prop_of_true hfail, removeAll_failed hfail]
        simp [hall]
      case pos =>
        rw [if_neg (not_not.mpr (removeAll_ok_iff.mpr hall))]
        have hroom : ((s.removeAll os 0 [e]).2.2.stationNdump cfg [e]).1 = .ok ↔
            ¬ cfg.nevents - (s.list (.input 0)).length < [e].length := by
          rw [stationNdump_ok_iff hne, not_lt, removeAll_onlyRemoves.same]
        by_cases hfull : cfg.nevents - (s.list (.input 0)).length < [e].length
        case neg =>
          rw [if_neg (not_not.mpr (hroom.mpr hfull))]
          exact iff_of_true (fun h => absurd rfl h)
            ⟨fun h => absurd hall h, fun _ h => absurd h hfull⟩
        case pos =>
          have hfail := fun h => hroom.mp h hfull
          -- the owner that the dump sets in this case is the one there is
          have hsame : (s.removeAll os 0 [e]).2.2.give [e] att = (s.removeAll os 0 [e]).2.2 := by
            have howner' : (s.removeAll os 0 [e]).2.2.owner = s.owner := by
              rw [removeAll_onlyRemoves.same]
            unfold give
            have hfun : (fun x => if x ∈ [e] then att else (s.removeAll os 0 [e]).2.2.owner x) =
                (s.removeAll os 0 [e]).2.2.owner := by
              funext x
              split
              case isTrue hx => rw [howner', hgood x hx]
              case isFalse => rfl
            rw [hfun]
          rw [if_pos hfail, forall_prop_of_true hfail, stationNdump_refused hfail, hsame,
            unchanged_removed_iff hall]
          exact ⟨fun h => ⟨fun hno => absurd hall hno, fun _ _ => h⟩, fun h => h.2 hall hfull⟩

end EventSystem

/-! ## The calls -/

open EventSystem

/-- **The calls that undo what they did, or did nothing, when they fail.** -/
def LocalCall.FailsCleanly (cfg : EventConfig) (os : OsAnswers) (s : EventSystem) :
    LocalCall → Prop
  | .new a size => s.NewFailsCleanly cfg os a .read size
  | .newMany a size num =>
      0 < num → s.NewFailsCleanly cfg os a (.nread (numAvailable cfg size num.toNat)) size
  | .newGroup a size num group =>
      0 < num → 1 ≤ group → group ≤ cfg.groupCount →
        s.NewFailsCleanly cfg os a
          (.nreadGroup (a.scanned.foldl min (numAvailable cfg size num.toNat)) group.toNat) size
  | .get a => s.GetFailsCleanly os a .read
  | .getMany a num => 0 < num → s.GetFailsCleanly os a (.nread num.toNat)
  | .put att pe => ∀ e, pe = some e → s.PutFailsCleanly cfg os att [e]
  | .putMany att pe => ∀ es, pe = some es → s.PutFailsCleanly cfg os att es
  | .dump att pe => ∀ e, pe = some e → s.DumpFailsCleanly cfg os att [e]
  | .dumpMany att pe => ∀ es, pe = some es → s.DumpFailsCleanly cfg os att es

/-- **A failed call leaves the events as they were** if and only if it fails cleanly: for every
state of the system, all arguments, and whatever the operating system answers. -/
theorem failed_call_keeps_iff (cfg : EventConfig) (os : OsAnswers) (s : EventSystem)
    (c : LocalCall) :
    ((c.perform cfg os s).1 ≠ .ok → Unchanged c.att s (c.perform cfg os s).2) ↔
      c.FailsCleanly cfg os s := by
  cases c with
  | new a size => exact newCall_keeps_iff
  | newMany a size num =>
      unfold LocalCall.perform LocalCall.FailsCleanly etEventsNew
      dsimp only
      by_cases hzero : num = 0
      · rw [if_pos hzero]
        exact iff_of_true (keeps_of_eq rfl) fun h => absurd hzero h.ne'
      rw [if_neg hzero]
      by_cases hneg : num < 0
      · rw [if_pos hneg]
        exact iff_of_true (keeps_of_eq rfl) fun h => absurd hneg h.not_gt
      rw [if_neg hneg]
      exact newCall_keeps_iff.trans ⟨fun h _ => h, fun h => h (by omega)⟩
  | newGroup a size num group =>
      unfold LocalCall.perform LocalCall.FailsCleanly etEventsNewGroup
      dsimp only
      by_cases hzero : num = 0
      · rw [if_pos hzero]
        exact iff_of_true (keeps_of_eq rfl) fun h => absurd hzero h.ne'
      rw [if_neg hzero]
      by_cases hneg : num < 0 ∨ group < 1
      · rw [if_pos hneg]
        exact iff_of_true (keeps_of_eq rfl) fun h hgroup => absurd hneg (by omega)
      rw [if_neg hneg]
      by_cases hmany : (cfg.groupCount : ℤ) < group
      · rw [if_pos hmany]
        exact iff_of_true (keeps_of_eq rfl) fun _ _ h => absurd hmany h.not_gt
      rw [if_neg hmany]
      exact newCall_keeps_iff.trans
        ⟨fun h _ _ _ => h, fun h => h (by omega) (by omega) (by omega)⟩
  | get a => exact getCall_keeps_iff
  | getMany a num =>
      unfold LocalCall.perform LocalCall.FailsCleanly etEventsGet
      dsimp only
      by_cases hzero : num = 0
      · rw [if_pos hzero]
        exact iff_of_true (keeps_of_eq rfl) fun h => absurd hzero h.ne'
      rw [if_neg hzero]
      by_cases hneg : num < 0
      · rw [if_pos hneg]
        exact iff_of_true (keeps_of_eq rfl) fun h => absurd hneg h.not_gt
      rw [if_neg hneg]
      exact getCall_keeps_iff.trans ⟨fun h _ => h, fun h => h (by omega)⟩
  | put att pe => exact etEventPut_keeps_iff
  | putMany att pe => exact etEventsPut_keeps_iff
  | dump att pe => exact etEventDump_keeps_iff
  | dumpMany att pe => exact etEventsDump_keeps_iff

/-- A system of two events in GRAND_CENTRAL's list, and an attachment to a station. -/
def freshEvents : EventSystem where
  owner _ := etSys
  hdr _ := .init
  pdata _ := .own
  file _ := false
  mapped _ := false
  list l := if l = .input 0 then [0, 1] else []
  lasthigh _ := 0
  ntemps := 0
  stations := .blank
  attach _ := ⟨true, some 1⟩
  nattachments := 1

/-- The configuration of that system: one temporary event at a time. -/
def freshConfig : EventConfig where
  nevents := 2
  nstations := 2
  nattachments := 1
  eventSize := 1000
  ntemps := 1
  groupCount := 1

/-- **A call that does not get its temporary event**: `et_event_new` for an event that is larger
than the system's events, while the file cannot be made, returns `ET_ERROR`.  Event `0` is out of
GRAND_CENTRAL's list then, and owned by an attachment that has not been told so. -/
theorem failed_new_keeps_event :
    ((LocalCall.new ⟨0, true, some .async, none, [], none⟩ 2000).perform freshConfig
        { OsAnswers.fine with create := fun _ => false } freshEvents).1 = .error ∧
      ¬ Unchanged 0 freshEvents
        ((LocalCall.new ⟨0, true, some .async, none, [], none⟩ 2000).perform freshConfig
          { OsAnswers.fine with create := fun _ => false } freshEvents).2 := by
  refine ⟨by decide, fun h => ?_⟩
  have howned := h.owned 0
  revert howned
  decide

end EventTransfer
