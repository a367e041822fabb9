import EventTransfer.EventRuns

/-!
# What the steps of a run do to the lists

A call takes events out of an input list, writes a list or dumps events; a conductor passes a batch
on.  That is one `Shift` of the events in the lists, and something else may be stored before and
after it that no list looks at.  A detach may take the events of an input list, and then adds
events to several lists.

* `EventSystem.Passes` — a pass, with what each station is given.
* `EventStep.effect` — what a step does to the lists, and to the headers of the events in them.
* `EventStep.restores` — which events a detach restores into a list.
-/

namespace EventTransfer

open Places StepRun Relation

namespace EventSystem

/-- The events of `es` are different ones, and in no list. -/
structure Unlisted (s : EventSystem) (es : List ℕ) : Prop where
  nodup : es.Nodup
  out : ∀ e ∈ es, ∀ l, e ∉ s.list l

/-- The state after a read that takes its events; no state is too bad for it. -/
def takes (s : EventSystem) (r : StationRead) (ps : ℕ) (att : ℤ) : EventSystem :=
  (s.setList (.input ps) (r.handOut s.hdr (s.list (.input ps))).2).give
    (r.handOut s.hdr (s.list (.input ps))).1 att

/-- **A pass of the conductor of `me`**: what each station is given, and what becomes of the
lists. -/
structure Passes (s t : EventSystem) (me : ℕ) (given : ℕ → List ℕ) : Prop where
  deals : DealsOnce (s.list (.output me)) given
  order : ∀ ps, (given ps).Sublist (s.list (.output me))
  active : ∀ ps, ps ≠ 0 → given ps ≠ [] → s.stations.status ps = .active
  input : ∀ ps, ps ≠ 0 →
    t.list (.input ps) = llistWrite (isHigh s.hdr) (s.list (.input ps)) (given ps)
  grandCentral : t.list (.input 0) = s.list (.input 0) ++ given 0
  output : ∀ ps, t.list (.output ps) = if ps = me then [] else s.list (.output ps)
  lasthigh : t.lasthigh = Function.update s.lasthigh me 0
  hdr : t.hdr = s.hdr
  owner : t.owner = s.owner
  stations : t.stations = { s.stations with waslast := t.stations.waslast }

/-- **A shift**: what one call or one pass does to the lists, when it does something. -/
inductive Shift (cfg : EventConfig) : EventSystem → EventSystem → Prop
  | none (s : EventSystem) : Shift cfg s s
  | take (s : EventSystem) (r : StationRead) (ps : ℕ) (att : ℤ) : Shift cfg s (s.takes r ps att)
  | write {s : EventSystem} (ps : ℕ) {pe : List ℕ} (new : s.Unlisted pe) :
      Shift cfg s (s.stationNwrite cfg ps pe).2
  | dump {s : EventSystem} {pe : List ℕ} (new : s.Unlisted pe) :
      Shift cfg s (s.stationNdump cfg pe).2
  | pass {s t : EventSystem} {me : ℕ} {given : ℕ → List ℕ} (h : Passes s t me given) : Shift cfg s t

/-- **Nothing that a list looks at is stored to**: neither a list nor the header or the owner of an
event in one. -/
structure Quiet (s t : EventSystem) : Prop where
  list : t.list = s.list
  lasthigh : t.lasthigh = s.lasthigh
  hdr : ∀ l, ∀ e ∈ s.list l, t.hdr e = s.hdr e
  owner : ∀ l, ∀ e ∈ s.list l, t.owner e = s.owner e

/-- **Events are added to a list**, which were in none.  `back l p` says whether events of the
priority `p` may be restored into the list `l`. -/
inductive Add (cfg : EventConfig) (back : ListName → Priority → Prop) :
    EventSystem → EventSystem → Prop
  | quiet {s t : EventSystem} (h : Quiet s t) : Add cfg back s t
  | write {s : EventSystem} (ps : ℕ) {pe : List ℕ} (new : s.Unlisted pe) :
      Add cfg back s (s.stationNwrite cfg ps pe).2
  | dump {s : EventSystem} {pe : List ℕ} (new : s.Unlisted pe) :
      Add cfg back s (s.stationNdump cfg pe).2
  | restoreIn {s : EventSystem} (ps : ℕ) {pe : List ℕ} (notCentral : ps ≠ 0) (new : s.Unlisted pe)
      (first : HighsFirst (isHigh s.hdr) pe)
      (wanted : ∀ e ∈ pe, back (.input ps) (s.hdr e).priority) :
      Add cfg back s (s.restore cfg (.input ps) pe).2
  | restoreOut {s : EventSystem} (ps : ℕ) {pe : List ℕ} (new : s.Unlisted pe)
      (wanted : ∀ e ∈ pe, back (.output ps) (s.hdr e).priority) :
      Add cfg back s (s.restore cfg (.output ps) pe).2

/-- Events are added, in several stores. -/
abbrev Adds (cfg : EventConfig) (back : ListName → Priority → Prop) :
    EventSystem → EventSystem → Prop := ReflTransGen (Add cfg back)

/-- One shift, with something stored before and after it. -/
def OneShift (cfg : EventConfig) (s t : EventSystem) : Prop :=
  ∃ u v, Quiet s u ∧ Shift cfg u v ∧ Quiet v t

/-- **What a step does**: one shift; or, a detach, it takes the events of an input list, unless it
leaves them, and adds events to lists. -/
inductive Effect (cfg : EventConfig) (back : ListName → Priority → Prop) (s t : EventSystem) : Prop
  | shift (h : OneShift cfg s t)
  | detach {u v : EventSystem} (ps : ℕ) (before : Quiet s u)
      (flush : v = u ∨ ps ≠ 0 ∧ ∃ r att, v = u.takes r ps att) (after : Adds cfg back v t)

/-! ## Headers -/

/-- **No list has changed**, and of the headers only those of the events of `es`. -/
structure OnlyHeaders (es : List ℕ) (s t : EventSystem) : Prop where
  same : SameLists s t
  hdr : ∀ e ∉ es, t.hdr e = s.hdr e

variable {s t u : EventSystem} {cfg : EventConfig} {os : OsAnswers}
  {es pe : List ℕ} {i e size ps me : ℕ} {l : ListName} {att : ℤ} {a : ReadArgs} {r : StationRead}

namespace OnlyHeaders

theorem refl (es : List ℕ) (s : EventSystem) : OnlyHeaders es s s := ⟨.refl s, fun _ _ => rfl⟩

theorem trans (h : OnlyHeaders es s t) (h' : OnlyHeaders es t u) : OnlyHeaders es s u :=
  ⟨h.same.trans h'.same, fun e he => (h'.hdr e he).trans (h.hdr e he)⟩

theorem mono (h : OnlyHeaders es s t) (hsub : es ⊆ pe) : OnlyHeaders pe s t :=
  ⟨h.same, fun e he => h.hdr e fun hin => he (hsub hin)⟩

/-- A header is stored. -/
theorem setHdr (s : EventSystem) (h : EventHeader) (he : e ∈ es) :
    OnlyHeaders es s (s.setHdr e h) :=
  ⟨setHdr_same s e h, fun _ hx => Function.update_of_ne (ne_of_mem_of_not_mem he hx).symm ..⟩

/-- A loop over events. -/
theorem foldl {f : EventSystem → ℕ → EventSystem} (h : ∀ s, ∀ e ∈ es, OnlyHeaders es s (f s e))
    (s : EventSystem) : OnlyHeaders es s (es.foldl f s) := by
  have hall : ∀ xs : List ℕ, xs ⊆ es → ∀ s, OnlyHeaders es s (xs.foldl f s) := by
    intro xs
    induction xs with
    | nil => exact fun _ s => refl es s
    | cons e xs ih =>
        intro hsub s
        rw [List.cons_subset] at hsub
        exact (h s e hsub.1).trans (ih hsub.2 (f s e))
  exact hall es (List.Subset.refl es) s

/-- Nothing that a list looks at has changed. -/
theorem quiet (h : OnlyHeaders es s t) (hes : s.Unlisted es) : Quiet s t :=
  ⟨h.same.list, h.same.lasthigh, fun l e he => h.hdr e fun hin => hes.out e hin l he,
    fun _ e _ => congrFun h.same.owner e⟩

end OnlyHeaders

/-- Headers that have not changed at all. -/
theorem onlyHeaders_of_hdr (h : SameLists s t) (hdr : t.hdr = s.hdr) (es : List ℕ) :
    OnlyHeaders es s t := ⟨h, fun e _ => congrFun hdr e⟩

theorem tryMake_onlyHeaders (create : Bool) (waits : List ℤ) (he : e ∈ es) :
    OnlyHeaders es s (tryMake cfg create size e waits s).2 := by
  have hmake : ∀ s : EventSystem, OnlyHeaders es s (s.etEventMake cfg create size e).2 := by
    intro s
    refine ⟨etEventMake_same create, fun x hx => ?_⟩
    unfold etEventMake
    split
    · rfl
    · cases create with
      | false => rfl
      | true => exact Function.update_of_ne (ne_of_mem_of_not_mem he hx).symm ..
  induction waits generalizing s with
  | nil => exact hmake s
  | cons n waits ih =>
      unfold tryMake
      dsimp only
      split
      · have hwait : OnlyHeaders es s { s with ntemps := n } :=
          ⟨⟨rfl, rfl, rfl, rfl, rfl, rfl⟩, fun _ _ => rfl⟩
        exact hwait.trans ih
      · exact hmake s

theorem makeAll_onlyHeaders : OnlyHeaders pe s (s.makeAll cfg os size i pe).2 := by
  induction pe generalizing s i with
  | nil => exact .refl [] s
  | cons e pe ih =>
      have hone := fun create waits => @tryMake_onlyHeaders s cfg (e :: pe) e size create waits
        List.mem_cons_self
      unfold makeAll
      dsimp only
      split
      · exact (hone _ _).trans (ih.mono (List.subset_cons_self e pe))
      · exact hone _ _

/-- The events of a call that makes new ones. -/
theorem makeBuffers_onlyHeaders : OnlyHeaders pe s (s.makeBuffers cfg os size pe).2 := by
  unfold makeBuffers
  split
  · exact makeAll_onlyHeaders
  · refine .foldl (fun s e he => ?_) s
    have hset := OnlyHeaders.setHdr s { EventHeader.init with
      group := (s.hdr e).group, length := size, memsize := cfg.eventSize } he
    exact ⟨⟨rfl, rfl, rfl, rfl, rfl, rfl⟩, hset.hdr⟩

theorem attachAll_hdr : (s.attachAll os i pe).2.hdr = s.hdr := by
  induction pe generalizing s i with
  | nil => rfl
  | cons e pe ih =>
      unfold attachAll
      split
      · exact ih.trans rfl
      · split
        · rfl
        · exact ih.trans rfl

theorem unmapAll_onlyHeaders : OnlyHeaders pe s (s.unmapAll os i pe).2 := by
  induction pe generalizing s i with
  | nil => exact .refl [] s
  | cons e pe ih =>
      unfold unmapAll
      split
      · exact .refl _ s
      · refine OnlyHeaders.trans ?_ (ih.mono (List.subset_cons_self e pe))
        have hunmap : OnlyHeaders (e :: pe) s (if s.isTemp e then s.setMapped e false else s) := by
          refine onlyHeaders_of_hdr (unmap_same s (s.isTemp e) e) ?_ _
          split <;> rfl
        exact hunmap.trans (OnlyHeaders.setHdr _ _ List.mem_cons_self)

theorem removeAll_hdr : (s.removeAll os i pe).2.2.hdr = s.hdr := by
  have hone : ∀ (s : EventSystem) (i e : ℕ), (s.tempRemove os i e).2.hdr = s.hdr := by
    intro s i e
    unfold tempRemove
    split
    · rfl
    · split <;> rfl
  induction pe generalizing s i with
  | nil => rfl
  | cons e pe ih =>
      unfold removeAll
      split
      · exact ih
      · dsimp only
        split
        · exact hone s i e
        · exact ih.trans (hone s i e)

theorem dropTemp_hdr (s : EventSystem) (cleanup : Bool) (os : OsAnswers) (e : ℕ) :
    (s.dropTemp cleanup os e).hdr = s.hdr := by
  unfold dropTemp tempRemove
  split
  · rfl
  · cases cleanup with
    | true => rfl
    | false =>
        simp only [Bool.false_eq_true, if_false]
        split
        · rfl
        · split <;> rfl

theorem dropAll_hdr (s : EventSystem) (cleanup : Bool) (os : OsAnswers) (pe : List ℕ) :
    (pe.foldl (fun s e => s.dropTemp cleanup os e) s).hdr = s.hdr := by
  induction pe generalizing s with
  | nil => rfl
  | cons e pe ih => exact (ih _).trans (dropTemp_hdr s cleanup os e)

theorem dropAll_same (s : EventSystem) (cleanup : Bool) (os : OsAnswers) (pe : List ℕ) :
    SameLists s (pe.foldl (fun s e => s.dropTemp cleanup os e) s) :=
  .foldl (fun s e => dropTemp_same s cleanup os e) s pe

/-- Events that are kept lose their mapping, and have their data marked. -/
theorem keepTemp_onlyHeaders (s : EventSystem) (cleanup : Bool) (os : OsAnswers) (he : e ∈ es) :
    OnlyHeaders es s (s.keepTemp cleanup os e) := by
  unfold keepTemp
  refine OnlyHeaders.trans (onlyHeaders_of_hdr (unmap_same s _ e) ?_ es)
    (OnlyHeaders.setHdr _ _ he)
  split <;> rfl

theorem keepTemp_priority (s : EventSystem) (cleanup : Bool) (os : OsAnswers) (e x : ℕ) :
    ((s.keepTemp cleanup os e).hdr x).priority = (s.hdr x).priority := by
  have hunmap : ∀ c : Bool, (if c then s.setMapped e false else s).hdr = s.hdr := by
    intro c
    cases c <;> rfl
  unfold keepTemp
  dsimp only [setHdr]
  rw [hunmap]
  rcases eq_or_ne x e with rfl | hne
  · rw [Function.update_self]
  · rw [Function.update_of_ne hne]

theorem keepAll_priority (s : EventSystem) (cleanup : Bool) (os : OsAnswers) (pe : List ℕ)
    (x : ℕ) : ((pe.foldl (fun s e => s.keepTemp cleanup os e) s).hdr x).priority =
      (s.hdr x).priority := by
  induction pe generalizing s with
  | nil => rfl
  | cons e pe ih => exact (ih _).trans (keepTemp_priority s cleanup os e x)

/-! ## Event calls -/

/-- What a read takes is in no list any more. -/
theorem unlisted_takes (h : Separate s.list) (r : StationRead) (ps : ℕ) (att : ℤ) :
    (s.takes r ps att).Unlisted (r.handOut s.hdr (s.list (.input ps))).1 := by
  have hperm : ((r.handOut s.hdr (s.list (.input ps))).1 ++
      (r.handOut s.hdr (s.list (.input ps))).2).Perm (s.list (.input ps)) := takeWhere_perm
  refine ⟨(hperm.nodup_iff.mpr (h.nodup _)).sublist (List.sublist_append_left _ _), ?_⟩
  exact fun e he l hl => ((mem_take hperm h l e).mp hl).2 he

theorem taken_eq (h : s.taken a r ps ≠ []) :
    s.taken a r ps = (r.handOut s.hdr (s.list (.input ps))).1 := by
  unfold taken at h ⊢
  split at h
  case isTrue => exact absurd rfl h
  case isFalse hgo => exact if_neg hgo

theorem afterRead_eq (h : s.taken a r ps ≠ []) : s.afterRead a r ps = s.takes r ps a.att := by
  unfold afterRead takes
  rw [taken_eq h]

/-- The events of an attachment are in no list. -/
theorem AllInPlace.unlisted (h : AllInPlace cfg s) (haccepts : s.Accepts att es) (hes : es.Nodup) :
    s.Unlisted es := ⟨hes, fun e he l => h.notMem haccepts.1 (haccepts.2 e he) l⟩

theorem Quiet.refl (s : EventSystem) : Quiet s s :=
  ⟨rfl, rfl, fun _ _ _ => rfl, fun _ _ _ => rfl⟩

theorem OneShift.refl (cfg : EventConfig) (s : EventSystem) : OneShift cfg s s :=
  ⟨s, s, .refl s, .none s, .refl s⟩

theorem Shift.one (h : Shift cfg s t) : OneShift cfg s t := ⟨s, t, .refl s, h, .refl t⟩

theorem Quiet.one (h : Quiet s t) : OneShift cfg s t := ⟨t, t, h, .none t, .refl t⟩

theorem newCall_shift (h : Separate s.list) : OneShift cfg s (s.newCall cfg os a r size).2 := by
  rcases s.newCall_cases cfg os a r size with heq | ⟨⟨-, -, htaken⟩, heq⟩
  · rw [heq]
    exact .refl cfg s
  · rw [heq, taken_eq htaken, afterRead_eq htaken]
    exact ⟨s, _, .refl s, .take s r 0 a.att, makeBuffers_onlyHeaders.quiet (unlisted_takes h ..)⟩

theorem getCall_shift : OneShift cfg s (s.getCall os a r).2 := by
  rcases s.getCall_cases os a r with heq | ⟨⟨-, -, -, htaken⟩, heq⟩
  · rw [heq]
    exact .refl cfg s
  · rw [heq, afterRead_eq htaken]
    exact ⟨s, _, .refl s, .take s r (s.statOf a.att) a.att, attachAll_same.list,
      attachAll_same.lasthigh, fun _ e _ => congrFun attachAll_hdr e,
      fun _ e _ => congrFun attachAll_same.owner e⟩

theorem Unlisted.congr (h : s.Unlisted es) (hlist : t.list = s.list) : t.Unlisted es :=
  ⟨h.nodup, by rw [hlist]; exact h.out⟩

theorem etEventsPut_shift (h : AllInPlace cfg s) (hes : s.Accepts att es → es.Nodup) :
    OneShift cfg s (s.etEventsPut cfg os att (some es)).2 := by
  unfold etEventsPut
  dsimp only
  split
  case isTrue => exact .refl cfg s
  split
  case isTrue => exact .refl cfg s
  case isFalse hatt =>
    split
    case isTrue => exact .refl cfg s
    case isFalse hgood =>
      have haccepts : s.Accepts att es := by
        refine ⟨not_lt.mp hatt, fun e he => ?_⟩
        by_contra hno
        exact hgood ⟨e, he, .inr hno⟩
      have hnew := h.unlisted haccepts (hes haccepts)
      have hunmap : OnlyHeaders es s (s.unmapAll os 0 es).2 := unmapAll_onlyHeaders
      have hnew' := hnew.congr hunmap.same.list
      split
      case isTrue => exact (hunmap.quiet hnew).one
      case isFalse =>
        split
        case isTrue hfail =>
          have hback : OnlyHeaders es (s.unmapAll os 0 es).2
              (es.foldl restoreAge (s.unmapAll os 0 es).2) :=
            .foldl (fun s e he => .setHdr s _ he) _
          rw [stationNwrite_refused hfail]
          exact ((hunmap.trans hback).quiet hnew).one
        case isFalse =>
          exact ⟨_, _, hunmap.quiet hnew, .write (s.statOf att) hnew', .refl _⟩

theorem etEventPut_shift (h : AllInPlace cfg s) :
    OneShift cfg s (s.etEventPut cfg os att (some e)).2 := by
  unfold etEventPut
  dsimp only
  split
  case isTrue => exact .refl cfg s
  case isFalse hatt =>
    split
    case isTrue => exact .refl cfg s
    split
    case isTrue => exact .refl cfg s
    case isFalse howner =>
      have haccepts : s.Accepts att [e] :=
        ⟨not_lt.mp hatt, List.forall_mem_singleton.mpr (not_not.mp howner)⟩
      have hnew := h.unlisted haccepts (List.nodup_singleton e)
      split
      case isTrue => exact .refl cfg s
      case isFalse =>
        set t := if s.isTemp e then s.setMapped e false else s
        have hunmap : OnlyHeaders [e] s t := by
          refine onlyHeaders_of_hdr (unmap_same s (s.isTemp e) e) ?_ _
          split <;> rfl
        have hage := hunmap.trans (.setHdr t { t.hdr e with age := .used } List.mem_cons_self)
        have hnew' : (t.setAge e .used).Unlisted [e] := hnew.congr hage.same.list
        split
        case isTrue hfail =>
          rw [stationNwrite_refused hfail]
          exact ((hage.trans (.setHdr _ _ List.mem_cons_self)).quiet hnew).one
        case isFalse => exact ⟨_, _, hage.quiet hnew, .write (s.statOf att) hnew', .refl _⟩

theorem etEventsDump_shift (h : AllInPlace cfg s) (hes : s.Accepts att es → es.Nodup) :
    OneShift cfg s (s.etEventsDump cfg os att (some es)).2 := by
  unfold etEventsDump
  dsimp only
  split
  case isTrue => exact .refl cfg s
  split
  case isTrue => exact .refl cfg s
  case isFalse hatt =>
    split
    case isTrue => exact .refl cfg s
    case isFalse hgood =>
      have haccepts : s.Accepts att es := by
        refine ⟨not_lt.mp hatt, fun e he => ?_⟩
        by_contra hno
        exact hgood ⟨e, he, hno⟩
      have hnew := h.unlisted haccepts (hes haccepts)
      have hremove : OnlyHeaders es s (s.removeAll os 0 es).2.2 :=
        onlyHeaders_of_hdr removeAll_same removeAll_hdr es
      have hnew' := hnew.congr hremove.same.list
      split
      case isTrue => exact (hremove.quiet hnew).one
      case isFalse =>
        split
        case isTrue => exact ⟨_, _, hremove.quiet hnew, .dump hnew', .refl _⟩
        case isFalse =>
          exact ⟨_, _, hremove.quiet hnew, .dump hnew', rfl, rfl, fun _ _ _ => rfl,
            fun _ _ _ => rfl⟩

/-! ## Passes -/

/-- There is room in a list for all events of another one. -/
theorem AllInPlace.lists_fit {m : ListName} (h : AllInPlace cfg s) (hne : l ≠ m) :
    (s.list l).length + (s.list m).length ≤ cfg.nevents := by
  refine length_add_le (h.separate.nodup l) (h.separate.nodup m) (fun e he hmem => ?_)
    fun e he => ?_
  · exact hne (h.separate.once l m e hmem he)
  · exact (List.mem_append.mp he).elim (fun he => (h.listed l e he).2) fun he => (h.listed m e he).2

/-- **A pass along a chain whose groups deal well.** -/
theorem pass_passes (h : AllInPlace cfg s) {select : ℕ → ℕ → Bool} {gs : List Group}
    {eventsTry : ℕ → ℕ} (hchain : ChainOk s.stations gs) (hme : me ∈ members gs)
    (hwell : (s.passStart eventsTry me).AllDealWell s.hdr cfg.nevents select (following gs me))
    {u : Pass} (hu : s.pass cfg select gs me eventsTry = some u) (os : OsAnswers) :
    ∃ given, Passes s (s.afterPass os me u) me given ∧
      ∀ ps, ps ≠ 0 → given ps ≠ [] → ps ∈ members (following gs me) := by
  have hroom : ∀ ps, (s.list (.input ps)).length + (s.list (.output me)).length ≤ cfg.nevents :=
    fun ps => h.lists_fit fun heq => by cases heq
  obtain ⟨v, given, hv, hhands, horder⟩ := conductor_handsOut select cfg.nevents hchain hme
    (h.separate.nodup (.output me)) hroom hwell
  obtain rfl : v = u := Option.some.inj (hv.symm.trans hu)
  have htarget : ∀ ps, ps ≠ 0 → given ps ≠ [] →
      ps ∈ s.stations.actives (members (following gs me)) :=
    fun ps hps hne => by
      by_contra hnot
      exact hne (hhands.only ps hnot hps)
  refine ⟨given, ⟨HandsOut.dealsOnce hhands (h.separate.nodup _), horder, fun ps hps hne => ?_,
    hhands.lists, hhands.grandCentral, fun ps => rfl, rfl, dropAll_hdr s true os _,
    (dropAll_same s true os _).owner, hhands.stations⟩, fun ps hps hne => (List.mem_filter.mp (htarget ps hps hne)).1⟩
  exact of_decide_eq_true (List.mem_filter.mp (htarget ps hps hne)).2

end EventSystem

open EventSystem

/-- **An event call** is a shift. -/
theorem LocalCall.oneShift {cfg : EventConfig} {s : EventSystem} (h : AllInPlace cfg s)
    (os : OsAnswers) (c : LocalCall) (hc : c.NamesOnce s) :
    OneShift cfg s (c.perform cfg os s).2 := by
  cases c with
  | new a size => exact newCall_shift h.separate
  | newMany a size num =>
      unfold LocalCall.perform etEventsNew
      dsimp only
      split
      · exact .refl cfg s
      · split
        · exact .refl cfg s
        · exact newCall_shift h.separate
  | newGroup a size num group =>
      unfold LocalCall.perform etEventsNewGroup
      dsimp only
      split
      · exact .refl cfg s
      · split
        · exact .refl cfg s
        · split
          · exact .refl cfg s
          · exact newCall_shift h.separate
  | get a => exact getCall_shift
  | getMany a num =>
      unfold LocalCall.perform etEventsGet
      dsimp only
      split
      · exact .refl cfg s
      · split
        · exact .refl cfg s
        · exact getCall_shift
  | put att pe =>
      cases pe with
      | none => exact .refl cfg s
      | some e => exact etEventPut_shift h
  | putMany att pe =>
      cases pe with
      | none => exact .refl cfg s
      | some es => exact etEventsPut_shift h (hc es rfl)
  | dump att pe =>
      cases pe with
      | none => exact .refl cfg s
      | some e =>
          have heq := etEventDump_eq h os att e
          unfold LocalCall.perform
          dsimp only
          rw [heq]
          exact etEventsDump_shift h fun _ => List.nodup_singleton e
  | dumpMany att pe =>
      cases pe with
      | none => exact .refl cfg s
      | some es => exact etEventsDump_shift h (hc es rfl)

/-! ## Detaching -/

/-- **A detach restores events** of the priority `p` into the list `l`: those of the attachment into
the input list of its station, or into the output list of the station before, where the last
attachment's detach flushes the input list into as well. -/
def EventStep.restores (cfg : EventConfig) (s : EventSystem) :
    EventStep → ListName → Priority → Prop
  | .detach att _ _ _, l, p => ∃ ps, (s.attach att).stat = some ps ∧ ps ≠ 0 ∧
      ((s.stations.config ps).restoreMode = .inn ∧ l = .input ps ∧
        (∃ e, s.owner e = att ∧ (s.hdr e).priority = p) ∨
      (s.stations.config ps).restoreMode = .redist ∧ l = .output (s.prevStation cfg ps) ∧
        ∃ e, (s.owner e = att ∨ s.stations.nattachments ps = 1 ∧ e ∈ s.list (.input ps)) ∧
          (s.hdr e).priority = p)
  | _, _, _ => False

/-- **A process stores only to the headers of events that belong to an attachment.** -/
def EventStep.StoresToOwned (s : EventSystem) : EventStep → Prop
  | .setFields e _ _ _ _ => s.owner e ≠ etSys
  | _ => True

namespace EventSystem

variable {s t u : EventSystem} {cfg : EventConfig} {back : ListName → Priority → Prop}
  {os : OsAnswers} {pe : List ℕ} {ps att : ℕ} {cleanup : Bool} {interrupt : Option NoEvent}
  {holds : ℕ → Prop}

theorem stationRead_takes (h : Separate s.list) (a : ReadArgs) (r : StationRead) (ps : ℕ) :
    ((s.stationRead a r ps).2.2 = s ∨ (s.stationRead a r ps).2.2 = s.takes r ps a.att) ∧
      (s.stationRead a r ps).2.2.Unlisted (s.stationRead a r ps).2.1 ∧
        (∀ e ∈ (s.stationRead a r ps).2.1, e ∈ s.list (.input ps)) := by
  by_cases hnone : s.taken a r ps = []
  · rw [stationRead_none hnone]
    exact ⟨.inl rfl, ⟨List.nodup_nil, fun _ he => absurd he List.not_mem_nil⟩,
      fun _ he => absurd he List.not_mem_nil⟩
  · have hafter := afterRead_eq hnone
    unfold afterRead at hafter
    rw [stationRead_some hnone, hafter, taken_eq hnone]
    refine ⟨.inr rfl, unlisted_takes h .., fun e he => ?_⟩
    exact takeWhere_perm.mem_iff.mp (List.mem_append_left _ he)

theorem prevStation_congr (hprevparallel : t.stations.prevparallel = s.stations.prevparallel)
    (hprev : t.stations.prev = s.stations.prev) : t.prevStation cfg ps = s.prevStation cfg ps := by
  have hfirst : ∀ n ps, t.firstParallel n ps = s.firstParallel n ps := by
    intro n
    induction n with
    | zero => exact fun _ => rfl
    | succ n ih =>
        intro ps
        unfold firstParallel
        rw [hprevparallel]
        split
        · exact ih _
        · rfl
  unfold prevStation
  rw [hfirst, hprev]

/-- The flush of an input list. -/
theorem etFlushEvents_adds (h : Separate s.list) (hps : ps ≠ 0)
    (hback : (s.stations.config ps).restoreMode = .redist →
      ∀ e ∈ s.list (.input ps), back (.output (s.prevStation cfg ps)) (s.hdr e).priority) :
    ∃ v, (v = s ∨ ∃ r att, v = s.takes r ps att) ∧
      Adds cfg back v (s.etFlushEvents cfg interrupt att ps) := by
  unfold etFlushEvents
  rw [if_neg hps]
  dsimp only
  obtain ⟨htakes, hnew, hin⟩ := stationRead_takes h
    ⟨att, true, some .async, none, [], interrupt⟩ (.nread cfg.nevents) ps
  have hhdr : ∀ v : EventSystem, (v = s ∨ v = s.takes (.nread cfg.nevents) ps att) →
      v.hdr = s.hdr := by
    rintro v (rfl | rfl)
    · rfl
    · rfl
  split
  case isTrue => exact ⟨s, .inl rfl, .refl⟩
  case isFalse =>
    refine ⟨_, htakes.imp id fun heq => ⟨_, _, heq⟩, ?_⟩
    split
    case isTrue hmode =>
      refine .single (.restoreOut _ hnew fun e he => ?_)
      rw [hhdr _ htakes]
      exact hback hmode e (hin e he)
    case isFalse => exact .single (.write ps hnew)

theorem ordered_highsFirst (s : EventSystem) (es : List ℕ) :
    HighsFirst (isHigh s.hdr) (s.ordered es) := by
  refine highsFirst_append (fun e he => (List.mem_filter.mp he).2) fun e he => ?_
  have := (List.mem_filter.mp ((List.dropWhile_sublist _).subset he)).2
  simpa using this

/-- What is in no list stays out when one list changes, unless it is added there. -/
theorem Unlisted.after {l : ListName} {xs : List ℕ} (h : s.Unlisted pe)
    (hlist : t.list = Function.update s.list l xs) (hxs : ∀ e ∈ pe, e ∉ xs) : t.Unlisted pe := by
  refine ⟨h.nodup, fun e he m => ?_⟩
  rw [hlist]
  rcases eq_or_ne m l with rfl | hm
  · rw [Function.update_self]
    exact hxs e he
  · rw [Function.update_of_ne hm]
    exact h.out e he m

/-- What a restore has no room for is still in no list. -/
theorem unlisted_restore (h : s.Unlisted pe) (l : ListName) :
    (s.restore cfg l pe).2.Unlisted (pe.drop (s.restore cfg l pe).1) := by
  have hdrop : s.Unlisted (pe.drop (s.restore cfg l pe).1) :=
    ⟨h.nodup.sublist (List.drop_sublist _ _), fun e he => h.out e (List.mem_of_mem_drop he)⟩
  refine hdrop.after rfl fun e he hmem => ?_
  unfold Post.put at hmem
  dsimp only at hmem
  split at hmem
  case isTrue => exact hdrop.out e he l hmem
  case isFalse =>
    rw [mem_mergeEvents] at hmem
    rcases hmem with hmem | hmem
    · exact hdrop.out e he l hmem
    · -- the events of the array are different ones
      have hsplit := List.nodup_append.mp ((List.take_append_drop (s.restore cfg l pe).1 pe).symm ▸
        h.nodup)
      refine hsplit.2.2 e ?_ e he rfl
      have htake : pe.take (s.restore cfg l pe).1 =
          pe.take (cfg.nevents - (s.list l).length) := by
        unfold restore
        dsimp only
        rw [min_comm, ← List.take_eq_take_min]
      rwa [htake]

/-- The second half of the restoring of events. -/
theorem restoreUsed_adds (h : s.Unlisted pe) (hfirst : HighsFirst (isHigh s.hdr) pe)
    (hin : (s.stations.config ps).restoreMode = .inn → ps ≠ 0 →
      ∀ e ∈ pe, back (.input ps) (s.hdr e).priority)
    (hredist : (s.stations.config ps).restoreMode = .redist → ps ≠ 0 →
      ∀ e ∈ pe, back (.output (s.prevStation cfg ps)) (s.hdr e).priority) :
    Adds cfg back s (s.restoreUsed cfg cleanup os ps pe) := by
  unfold restoreUsed
  dsimp only
  split
  case isTrue =>
    have hdrop := onlyHeaders_of_hdr (dropAll_same s cleanup os pe) (dropAll_hdr s cleanup os pe) pe
    exact .tail (.single (.quiet (hdrop.quiet h))) (.dump (h.congr hdrop.same.list))
  case isFalse hgc =>
    obtain ⟨hgc, hps⟩ := not_or.mp hgc
    set t := pe.foldl (fun s e => s.keepTemp cleanup os e) s
    have hkeep : OnlyHeaders pe s t := .foldl (fun s e he => keepTemp_onlyHeaders s cleanup os he) s
    have hpriority : ∀ e, (t.hdr e).priority = (s.hdr e).priority :=
      keepAll_priority s cleanup os pe
    have hnew : t.Unlisted pe := h.congr hkeep.same.list
    have hadds : Adds cfg back s t := .single (.quiet (hkeep.quiet h))
    split
    case isTrue => exact hadds.tail (.write ps hnew)
    case isFalse hout =>
      split
      case isTrue hmode =>
        have hrestore : Adds cfg back s (t.restore cfg (.input ps) pe).2 := by
          refine hadds.tail (.restoreIn ps hps hnew (hfirst.congr fun e _ => ?_) fun e he => ?_)
          · unfold isHigh
            rw [hpriority]
          · rw [hpriority]
            exact hin hmode hps e he
        split
        case isTrue => exact hrestore.tail (.write ps (unlisted_restore hnew _))
        case isFalse => exact hrestore
      case isFalse hmode =>
        have hmode : (s.stations.config ps).restoreMode = .redist := by
          cases hm : (s.stations.config ps).restoreMode with
          | out => exact absurd (.inl hm) hout
          | inn => exact absurd hm hmode
          | gc => exact absurd hm hgc
          | redist => rfl
        refine hadds.tail (.restoreOut _ hnew fun e he => ?_)
        rw [hpriority]
        exact hredist hmode hps e he

/-- A dump: there is no room, or the events are at the end. -/
theorem stationNdump_cases (s : EventSystem) (cfg : EventConfig) (pe : List ℕ) :
    (s.stationNdump cfg pe).2 = s ∨ (s.stationNdump cfg pe).2 =
      (s.setList (.input 0) (s.list (.input 0) ++ pe)).give pe etSys := by
  unfold stationNdump Post.put
  dsimp only
  split
  case isTrue => exact .inl rfl
  split
  case isTrue => exact .inl rfl
  case isFalse => exact .inr rfl

/-- A write: there is no room, or the events are in the list. -/
theorem stationNwrite_cases (s : EventSystem) (cfg : EventConfig) (ps : ℕ) (pe : List ℕ) :
    (s.stationNwrite cfg ps pe).2 = s ∨ (s.stationNwrite cfg ps pe).2 =
      ({ s.setList (.output ps)
          (putEvents (isHigh s.hdr) (s.lasthigh ps, s.list (.output ps)) pe).2 with
        lasthigh := Function.update s.lasthigh ps
          (putEvents (isHigh s.hdr) (s.lasthigh ps, s.list (.output ps)) pe).1 } :
            EventSystem).give pe etSys := by
  unfold stationNwrite
  split
  case isTrue => exact .inl rfl
  split
  case isTrue => exact .inl rfl
  case isFalse => exact .inr rfl

/-- What a restore leaves in a list. -/
theorem restore_list (s : EventSystem) (cfg : EventConfig) (l : ListName) (pe : List ℕ) :
    ∃ n, (s.restore cfg l pe).2.list = Function.update s.list l
      (mergeEvents (isHigh s.hdr) (s.list l) (pe.take n)) := by
  unfold restore Post.put
  dsimp only
  split
  case isTrue =>
    refine ⟨0, ?_⟩
    have hnil : mergeEvents (isHigh s.hdr) (s.list l) [] = s.list l := by
      unfold mergeEvents
      split
      case isTrue hx => exact hx.symm
      case isFalse => simp
    rw [List.take_zero, hnil]
    rfl
  case isFalse => exact ⟨_, rfl⟩

/-- An attachment's events are restored. -/
theorem etRestoreEvents_adds (h : Conserved cfg holds (fun _ => False) s)
    (hin : (s.stations.config ps).restoreMode = .inn → ps ≠ 0 →
      ∀ e, s.owner e = att → back (.input ps) (s.hdr e).priority)
    (hredist : (s.stations.config ps).restoreMode = .redist → ps ≠ 0 →
      ∀ e, s.owner e = att → back (.output (s.prevStation cfg ps)) (s.hdr e).priority) :
    Adds cfg back s (s.etRestoreEvents cfg cleanup os att ps) := by
  have hunlisted : ∀ age, s.Unlisted (s.found cfg att age) := fun age =>
    ⟨found_nodup, fun e he => h.notMem (Int.natCast_nonneg att) (mem_found.mp he).2.1⟩
  unfold etRestoreEvents
  dsimp only
  set used := s.found cfg att .used with hused
  set new := s.found cfg att .new with hnew
  set t := s.give used etSys
  set u := new.foldl (fun s e => s.dropTemp cleanup os e) t
  have ht : Add cfg back s t := .quiet ⟨rfl, rfl, fun _ _ _ => rfl,
    fun l e he => if_neg fun hin => (hunlisted .used).out e hin l he⟩
  have hdrop : OnlyHeaders new t u :=
    onlyHeaders_of_hdr (dropAll_same t cleanup os new) (dropAll_hdr t cleanup os new) new
  have hnewt : t.Unlisted new := (hunlisted .new).congr rfl
  have hnewu : u.Unlisted new := hnewt.congr hdrop.same.list
  have hadds : Adds cfg back s (u.stationNdump cfg new).2 :=
    .tail (.tail (.single ht) (.quiet (hdrop.quiet hnewt))) (.dump hnewu)
  -- the events got are not among those made
  have hold : ∀ e ∈ used, e ∉ u.list (.input 0) ++ new := by
    intro e he hmem
    rcases List.mem_append.mp hmem with hmem | hmem
    · rw [hdrop.same.list] at hmem
      exact (hunlisted .used).out e he _ hmem
    · have hage := (mem_found.mp hmem).2.2
      rw [(mem_found.mp he).2.2] at hage
      cases hage
  have husedu : u.Unlisted used := ((hunlisted .used).congr rfl : t.Unlisted used).congr
    hdrop.same.list
  have hlater : (u.stationNdump cfg new).2.Unlisted used ∧
      (u.stationNdump cfg new).2.hdr = u.hdr ∧
        (u.stationNdump cfg new).2.stations = u.stations := by
    rcases u.stationNdump_cases cfg new with heq | heq
    · rw [heq]
      exact ⟨husedu, rfl, rfl⟩
    · rw [heq]
      exact ⟨husedu.after rfl hold, rfl, rfl⟩
  obtain ⟨hunl, hhdr, hstations⟩ := hlater
  have hhdr' : (u.stationNdump cfg new).2.hdr = s.hdr := hhdr.trans (dropAll_hdr t cleanup os new)
  have hstations' : (u.stationNdump cfg new).2.stations = s.stations :=
    hstations.trans hdrop.same.stations
  split
  case isTrue => exact hadds
  case isFalse =>
    have hperm : (s.ordered used).Perm used := ordered_perm
    have howned : ∀ e ∈ s.ordered used, s.owner e = att := fun e he =>
      (mem_found.mp (hperm.mem_iff.mp he)).2.1
    refine hadds.trans (restoreUsed_adds
      ⟨hperm.nodup_iff.mpr hunl.nodup, fun e he => hunl.out e (hperm.mem_iff.mp he)⟩ ?_ ?_ ?_)
    · rw [hhdr']
      exact ordered_highsFirst s used
    · rw [hstations', hhdr']
      exact fun hmode hps e he => hin hmode hps e (howned e he)
    · rw [hstations', hhdr', prevStation_congr (congrArg Stations.prevparallel hstations')
        (congrArg Stations.prev hstations')]
      exact fun hmode hps e he => hredist hmode hps e (howned e he)

/-- **A detach** flushes an input list, and restores events. -/
theorem etStationDetach_effect (h : AllInPlace cfg s) (att : ℕ) (cleanup : Bool)
    (interrupt : Option NoEvent) (os : OsAnswers) :
    Effect cfg ((EventStep.detach att cleanup interrupt os).restores cfg s) s
      (s.etStationDetach cfg cleanup interrupt os att).2 := by
  rcases s.etStationDetach_cases cfg cleanup interrupt os att with heq | ⟨ps, -, hps, heq⟩
  case inl =>
    rw [heq]
    exact .shift (.refl cfg s)
  case inr =>
    rw [heq]
    set back := (EventStep.detach att cleanup interrupt os).restores cfg s
    have hin : (s.stations.config ps).restoreMode = .inn → ps ≠ 0 →
        ∀ e, s.owner e = att → back (.input ps) (s.hdr e).priority :=
      fun hmode h0 e he => ⟨ps, hps, h0, .inl ⟨hmode, rfl, e, he, rfl⟩⟩
    have hredist : (s.stations.config ps).restoreMode = .redist → ps ≠ 0 →
        ∀ e, (s.owner e = att ∨ s.stations.nattachments ps = 1 ∧ e ∈ s.list (.input ps)) →
          back (.output (s.prevStation cfg ps)) (s.hdr e).priority :=
      fun hmode h0 e he => ⟨ps, hps, h0, .inr ⟨hmode, rfl, e, he, rfl⟩⟩
    have hprev : (s.released att ps).prevStation cfg ps = s.prevStation cfg ps :=
      prevStation_congr rfl rfl
    have hreleased : Quiet s (s.released att ps) :=
      ⟨rfl, rfl, fun _ _ _ => rfl, fun _ _ _ => rfl⟩
    -- what the flush leaves to be restored
    obtain ⟨hu, howner, -, hmoves⟩ := h.beforeRestore interrupt att ps
    have hadds : Adds cfg back (s.beforeRestore cfg interrupt att ps)
        ((s.beforeRestore cfg interrupt att ps).etRestoreEvents cfg cleanup os att ps) := by
      refine etRestoreEvents_adds hu ?_ ?_
      · rw [howner, hmoves]
        exact hin
      · rw [howner, prevStation_congr (s := s.released att ps) (by rw [hmoves]) (by rw [hmoves]),
          hprev, hmoves]
        exact fun hmode h0 e he => hredist hmode h0 e (.inl he)
    have hdown : ∀ v : EventSystem, Add cfg back v (v.countedDown ps) :=
      fun v => .quiet ⟨rfl, rfl, fun _ _ _ => rfl, fun _ _ _ => rfl⟩
    unfold beforeRestore at hadds ⊢
    split at hadds
    case isTrue hlast =>
      rw [if_pos hlast]
      obtain ⟨w, hflush, hflushed⟩ := @etFlushEvents_adds (s.released att ps) cfg back ps att
        interrupt h.separate hlast.2 fun hmode e he => by
          rw [hprev]
          exact hredist hmode hlast.2 e (.inr ⟨hlast.1, he⟩)
      exact .detach ps hreleased (hflush.imp id fun hw => ⟨hlast.2, hw⟩)
        (.tail (hflushed.trans hadds) (hdown _))
    case isFalse hmore =>
      rw [if_neg hmore]
      exact .detach ps hreleased (.inl rfl) (.tail hadds (hdown _))

end EventSystem

/-- **What every step does**, in runs that lose no event and where only the headers of events that
belong to an attachment are stored to. -/
theorem EventStep.effect {cfg : EventConfig} {s t : EventSystem} (h : AllInPlace cfg s)
    (a : EventStep) (ha : a.KeepsEvents cfg s) (hfits : a.Fits s) (hown : a.StoresToOwned s)
    (hnext : a.next cfg s = some t) : Effect cfg (a.restores cfg s) s t := by
  cases a with
  | call c os =>
      obtain rfl := Option.some.inj hnext
      exact .shift (c.oneShift h _ ha)
  | conduct me gs select eventsTry os =>
      obtain ⟨u, hu, rfl⟩ := Option.map_eq_some_iff.mp hnext
      obtain ⟨given, hpass, -⟩ := pass_passes h hfits.1 hfits.2 ha hu os
      exact .shift (Shift.pass hpass).one
  | attach ps =>
      obtain rfl := Option.some.inj hnext
      unfold etStationAttach
      split
      · exact .shift (.refl cfg s)
      split
      · exact .shift (.refl cfg s)
      split
      · exact .shift (.refl cfg s)
      split
      · exact .shift (.refl cfg s)
      split
      · exact .shift (.refl cfg s)
      · exact .shift (Quiet.one ⟨rfl, rfl, fun _ _ _ => rfl, fun _ _ _ => rfl⟩)
  | detach att cleanup interrupt os =>
      obtain rfl := Option.some.inj hnext
      exact etStationDetach_effect h att cleanup interrupt os
  | setFields e priority datastatus length control =>
      obtain rfl := Option.some.inj hnext
      refine .shift (Quiet.one ⟨rfl, rfl, fun l x hx => Function.update_of_ne ?_ ..,
        fun _ _ _ => rfl⟩)
      rintro rfl
      exact hown (h.listed l x hx).1

end EventTransfer
