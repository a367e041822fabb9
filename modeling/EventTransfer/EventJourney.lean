import EventTransfer.EventMoves

/-!
# The way of an event through the stations

Between two visits to GRAND_CENTRAL's input list an event goes forward along the chain of stations:
from a station's input list to one of its attachments, from there to its output list, and with a
pass of its conductor to a station of a group further on.  Only a detach of an attachment to a
station whose restore mode is `ET_STATION_RESTORE_REDIST` takes events back.

* `EventSystem.At` — the station at which an event is, and whether it is in the output list.
* `progress` — how far it has come.
* `events_go_forward` — it never becomes less.
-/

namespace EventTransfer

open Places StepRun Relation

/-- The position of the group of a station in a chain. -/
def groupNumber (gs : List Group) (ps : ℕ) : ℕ := gs.findIdx fun g => ps ∈ g.1 :: g.2

/-- **How far an event has come** that is at the station `ps`: the group of the station, and then
whether it is in the output list. -/
def progress (gs : List Group) (ps : ℕ) (out : Bool) : ℕ ×ₗ Bool := toLex (groupNumber gs ps, out)

theorem groupNumber_cons_of_mem {g : Group} {ps : ℕ} (h : ps ∈ g.1 :: g.2) (gs : List Group) :
    groupNumber (g :: gs) ps = 0 := by
  unfold groupNumber
  rw [List.findIdx_cons, decide_eq_true h]
  rfl

theorem groupNumber_cons_of_notMem {g : Group} {ps : ℕ} (h : ps ∉ g.1 :: g.2) (gs : List Group) :
    groupNumber (g :: gs) ps = groupNumber gs ps + 1 := by
  unfold groupNumber
  rw [List.findIdx_cons, decide_eq_false h]
  rfl

/-- The stations that a conductor writes to are further on. -/
theorem groupNumber_lt_of_following {gs : List Group} {me ps : ℕ} (hnodup : (members gs).Nodup)
    (hme : me ∈ members gs) (hps : ps ∈ members (following gs me)) :
    groupNumber gs me < groupNumber gs ps := by
  induction gs with
  | nil => exact absurd hme List.not_mem_nil
  | cons g gs ih =>
      have hcons : members (g :: gs) = (g.1 :: g.2) ++ members gs := rfl
      rw [hcons, List.nodup_append] at hnodup
      obtain ⟨-, hrest, hdisjoint⟩ := hnodup
      by_cases hg : me ∈ g.1 :: g.2
      · have htail : following (g :: gs) me = gs := by
          unfold following
          rw [List.dropWhile_cons_of_neg (by rw [decide_eq_true_eq]; exact not_not.mpr hg)]
          rfl
        rw [htail] at hps
        have hnot : ps ∉ g.1 :: g.2 := fun h => hdisjoint ps h ps hps rfl
        rw [groupNumber_cons_of_mem hg, groupNumber_cons_of_notMem hnot]
        exact Nat.succ_pos _
      · have hin : me ∈ members gs := (List.mem_append.mp (hcons ▸ hme)).resolve_left hg
        have hsame : following (g :: gs) me = following gs me := by
          unfold following
          rw [List.dropWhile_cons_of_pos (by rw [decide_eq_true_eq]; exact hg)]
        rw [hsame] at hps
        obtain ⟨us, k, hgs⟩ := exists_following hin
        have hlater : ps ∈ members gs := by
          rw [hgs, members_append]
          exact List.mem_append_right _ (List.mem_append_right (k.1 :: k.2) hps)
        have hnot : ps ∉ g.1 :: g.2 := fun h => hdisjoint ps h ps hlater rfl
        rw [groupNumber_cons_of_notMem hg, groupNumber_cons_of_notMem hnot]
        exact Nat.succ_lt_succ (ih hrest hin hps)

namespace EventSystem

variable {s t u : EventSystem} {cfg : EventConfig} {os : OsAnswers} {pe es : List ℕ}
  {e ps qs att : ℕ} {out out' : Bool} {gs : List Group} {into : ListName → ℕ → Prop}

/-- **The event is at the station `ps`**: in one of its lists, or with one of its attachments. -/
inductive At (s : EventSystem) (e : ℕ) : ℕ → Bool → Prop
  | input {ps : ℕ} (h : e ∈ s.list (.input ps)) : At s e ps false
  | held {ps att : ℕ} (attached : s.Attached att) (owner : s.owner e = att)
      (stat : s.statOf att = ps) : At s e ps false
  | output {ps : ℕ} (h : e ∈ s.list (.output ps)) : At s e ps true

/-- Every event is at a station. -/
theorem exists_at (hall : AllInPlace cfg s) (he : e < cfg.nevents) : ∃ ps out, s.At e ps out := by
  rcases hall.place e he with ⟨l, hl⟩ | ⟨att, hatt, howner⟩ | hno
  · cases l with
    | input ps => exact ⟨ps, false, .input hl⟩
    | output ps => exact ⟨ps, true, .output hl⟩
  · exact ⟨_, false, .held hatt howner rfl⟩
  · exact absurd hno id

theorem At.lt (hall : AllInPlace cfg s) (h : s.At e ps out) : e < cfg.nevents := by
  cases h with
  | input h => exact (hall.listed _ e h).2
  | held hatt howner _ =>
      refine hall.held e ?_
      rw [howner]
      exact ne_of_gt (lt_of_lt_of_le (by decide) (Int.natCast_nonneg _))
  | output h => exact (hall.listed _ e h).2

/-- An event is at one station. -/
theorem At.unique (hall : AllInPlace cfg s) (h : s.At e ps out) (h' : s.At e qs out') :
    ps = qs ∧ out = out' := by
  have honce := hall.separate.once
  have hheld : ∀ {att : ℕ} {l}, s.owner e = att → e ∉ s.list l := fun howner =>
    hall.notMem (Int.natCast_nonneg _) howner _
  cases h with
  | input h =>
      cases h' with
      | input h' => exact ⟨ListName.input.inj (honce _ _ e h h'), rfl⟩
      | held _ howner _ => exact absurd h (hheld howner)
      | output h' => cases honce _ _ e h h'
  | held hatt howner hstat =>
      cases h' with
      | input h' => exact absurd h' (hheld howner)
      | held hatt' howner' hstat' =>
          obtain rfl := Int.ofNat_inj.mp (howner.symm.trans howner')
          exact ⟨hstat.symm.trans hstat', rfl⟩
      | output h' => exact absurd h' (hheld howner)
  | output h =>
      cases h' with
      | input h' => cases honce _ _ e h h'
      | held _ howner _ => exact absurd h (hheld howner)
      | output h' => exact ⟨ListName.output.inj (honce _ _ e h h'), rfl⟩

theorem statOf_congr (h : t.attach att = s.attach att) : t.statOf att = s.statOf att :=
  congrArg (fun a => a.stat.getD 0) h

theorem At.of_same (h : SameLists s t) (hat : t.At e ps out) : s.At e ps out := by
  cases hat with
  | input hin => exact .input (by rwa [h.list] at hin)
  | @held att hatt howner hstat =>
      unfold Attached at hatt
      rw [h.attach] at hatt
      rw [h.owner] at howner
      exact .held hatt howner ((statOf_congr (congrFun h.attach att)).symm.trans hstat)
  | output hin => exact .output (by rwa [h.list] at hin)

/-- **The event is not further back** than it was. -/
def GoesForward (gs : List Group) (s t : EventSystem) (e : ℕ) : Prop :=
  ∀ ps out qs out', s.At e ps out → t.At e qs out' → progress gs ps out ≤ progress gs qs out'

/-- It is where it was. -/
theorem goesForward_of_at (hall : AllInPlace cfg s) (h : t.At e qs out' → s.At e qs out')
    (hat : s.At e ps out) (hat' : t.At e qs out') : progress gs ps out ≤ progress gs qs out' := by
  obtain ⟨rfl, rfl⟩ := hat.unique hall (h hat')
  exact le_rfl

theorem progress_false_le (gs : List Group) (ps : ℕ) (out : Bool) :
    progress gs ps false ≤ progress gs ps out :=
  Prod.Lex.toLex_le_toLex.mpr (.inr ⟨rfl, Bool.false_le out⟩)

theorem SameLists.goesForward (hall : AllInPlace cfg s) (h : SameLists s t) :
    GoesForward gs s t e := fun _ _ _ _ => goesForward_of_at hall (.of_same h)

/-- Who owns an event is attached. -/
theorem AllInPlace.attached (hall : AllInPlace cfg s) (howner : s.owner e = att) :
    s.Attached att := by
  have hne : s.owner e ≠ etSys := by
    rw [howner]
    exact ne_of_gt (lt_of_lt_of_le (by decide) (Int.natCast_nonneg att))
  rcases hall.place e (hall.held e hne) with ⟨l, hl⟩ | ⟨att', hatt', howner'⟩ | hno
  · exact absurd hl (hall.notMem (Int.natCast_nonneg att) howner l)
  · obtain rfl := Int.ofNat_inj.mp (howner'.symm.trans howner)
    exact hatt'
  · exact absurd hno id

/-- **Events go into lists**, and no attachment gets any. -/
structure Lets (into : ListName → ℕ → Prop) (s t : EventSystem) : Prop where
  mem : ∀ l, ∀ e ∈ t.list l, e ∈ s.list l ∨ into l e
  owner : ∀ e, t.owner e = s.owner e ∨ t.owner e = etSys
  attach : t.attach = s.attach

namespace Lets

theorem refl (into : ListName → ℕ → Prop) (s : EventSystem) : Lets into s s :=
  ⟨fun _ _ he => .inl he, fun _ => .inl rfl, rfl⟩

theorem trans (h : Lets into s t) (h' : Lets into t u) : Lets into s u := by
  refine ⟨fun l e he => ?_, fun e => ?_, h'.attach.trans h.attach⟩
  · rcases h'.mem l e he with he | hin
    · exact h.mem l e he
    · exact .inr hin
  · rcases h'.owner e with he | he
    · rw [he]
      exact h.owner e
    · exact .inr he

theorem of_same (h : SameLists s t) : Lets into s t :=
  ⟨fun l e he => .inl (by rwa [h.list] at he), fun e => .inl (congrFun h.owner e), h.attach⟩

/-- Events of an array go into one list. -/
theorem of_puts {l : ListName} (h : Puts s t l es) (hin : ∀ e ∈ es, into l e) : Lets into s t := by
  refine ⟨fun m e he => ?_, fun e => ?_, h.attach⟩
  · rcases (h.mem m e).mp he with he | ⟨rfl, he⟩
    · exact .inl he
    · exact .inr (hin e he)
  · rw [h.owner]
    split
    · exact .inr rfl
    · exact .inl rfl

end Lets

/-! ## Detaching -/

theorem stationNwrite_lets (hin : ∀ e ∈ pe, into (.output ps) e) :
    Lets into s (s.stationNwrite cfg ps pe).2 := by
  rcases s.stationNwrite_cases cfg ps pe with heq | heq
  · rw [heq]
    exact .refl into s
  · rw [heq]
    exact .of_puts ⟨⟨_, putEvents_perm, rfl⟩, fun _ => rfl, rfl⟩ hin

theorem stationNdump_lets (hin : ∀ e ∈ pe, into (.input 0) e) :
    Lets into s (s.stationNdump cfg pe).2 := by
  rcases s.stationNdump_cases cfg pe with heq | heq
  · rw [heq]
    exact .refl into s
  · rw [heq]
    exact .of_puts ⟨⟨_, .refl _, rfl⟩, fun _ => rfl, rfl⟩ hin

theorem restore_lets {l : ListName} (hin : ∀ e ∈ pe, into l e) :
    Lets into s (s.restore cfg l pe).2 := by
  obtain ⟨n, hlist⟩ := s.restore_list cfg l pe
  refine ⟨fun m e he => ?_, fun e => ?_, rfl⟩
  · rw [hlist] at he
    rcases eq_or_ne m l with rfl | hm
    · rw [Function.update_self, mem_mergeEvents] at he
      exact he.imp id fun he => hin e (List.mem_of_mem_take he)
    · rw [Function.update_of_ne hm] at he
      exact .inl he
  · exact (ite_eq_or_eq (e ∈ pe.take _) etSys (s.owner e)).symm

/-- Where `et_restore_events` may put an event of the attachment `att`. -/
def RestoredTo (cfg : EventConfig) (s : EventSystem) (att ps : ℕ) (l : ListName) (e : ℕ) : Prop :=
  s.owner e = att ∧ (l = .input 0 ∨ l = .input ps ∨ l = .output ps ∨
    (s.stations.config ps).restoreMode = .redist ∧ ps ≠ 0 ∧ l = .output (s.prevStation cfg ps))

/-- An attachment's events are restored. -/
theorem etRestoreEvents_lets {cleanup : Bool} (s : EventSystem) :
    Lets (s.RestoredTo cfg att ps) s (s.etRestoreEvents cfg cleanup os att ps) := by
  set into := s.RestoredTo cfg att ps
  have hown : ∀ age, ∀ e ∈ s.found cfg att age, s.owner e = att := fun age e he =>
    (mem_found.mp he).2.1
  unfold etRestoreEvents
  dsimp only
  set new := s.found cfg att .new
  set used := s.found cfg att .used
  set t := s.give used etSys
  set u := new.foldl (fun s e => s.dropTemp cleanup os e) t
  have ht : Lets into s t :=
    ⟨fun _ _ he => .inl he, fun e => (ite_eq_or_eq (e ∈ used) etSys (s.owner e)).symm, rfl⟩
  have hu : SameLists t u := dropAll_same t cleanup os new
  have hv : Lets into s (u.stationNdump cfg new).2 :=
    (ht.trans (.of_same hu)).trans (stationNdump_lets fun e he => ⟨hown _ e he, .inl rfl⟩)
  have hstations : (u.stationNdump cfg new).2.stations = s.stations := by
    rw [stationNdump_onlyMoves, hu.stations]
    rfl
  set v := (u.stationNdump cfg new).2
  split
  case isTrue => exact hv
  case isFalse =>
    refine hv.trans ?_
    have hused : ∀ e ∈ s.ordered used, s.owner e = att := fun e he =>
      hown _ e (ordered_perm.mem_iff.mp he)
    unfold restoreUsed
    dsimp only
    rw [hstations]
    split
    case isTrue =>
      exact (Lets.of_same (dropAll_same v cleanup os _)).trans
        (stationNdump_lets fun e he => ⟨hused e he, .inl rfl⟩)
    case isFalse hgc =>
      set w := (s.ordered used).foldl (fun s e => s.keepTemp cleanup os e) v
      have hw : SameLists v w := .foldl (fun s e => keepTemp_same s cleanup os e) v _
      refine (Lets.of_same hw).trans ?_
      have hout : ∀ e ∈ s.ordered used, into (.output ps) e := fun e he =>
        ⟨hused e he, .inr (.inr (.inl rfl))⟩
      split
      case isTrue => exact stationNwrite_lets hout
      case isFalse hmode =>
        split
        case isTrue =>
          have hback : Lets into w (w.restore cfg (.input ps) (s.ordered used)).2 :=
            restore_lets fun e he => ⟨hused e he, .inr (.inl rfl)⟩
          split
          case isTrue =>
            exact hback.trans (stationNwrite_lets fun e he => hout e (List.mem_of_mem_drop he))
          case isFalse => exact hback
        case isFalse hin =>
          refine restore_lets fun e he => ⟨hused e he, .inr (.inr (.inr ⟨?_, ?_, ?_⟩))⟩
          · cases hm : (s.stations.config ps).restoreMode with
            | out => exact absurd (.inl hm) hmode
            | inn => exact absurd hm hin
            | gc => exact absurd (.inl hm) hgc
            | redist => rfl
          · exact fun h0 => hgc (.inr h0)
          · rw [prevStation_congr (congrArg Stations.prevparallel hstations)
              (congrArg Stations.prev hstations)]

/-- The flush of an input list. -/
theorem etFlushEvents_mem {interrupt : Option NoEvent} (l : ListName)
    (h : e ∈ (s.etFlushEvents cfg interrupt att ps).list l) :
    e ∈ s.list l ∨ ps ≠ 0 ∧ e ∈ s.list (.input ps) ∧
      (l = .output ps ∨ (s.stations.config ps).restoreMode = .redist ∧
        l = .output (s.prevStation cfg ps)) := by
  unfold etFlushEvents at h
  split at h
  case isTrue => exact .inl h
  case isFalse hps =>
    dsimp only at h
    split at h
    case isTrue => exact .inl h
    case isFalse =>
      obtain ⟨es, xs, hperm, hread⟩ := s.stationRead_cases
        ⟨att, true, some .async, none, [], interrupt⟩ (.nread cfg.nevents) ps
      rw [hread] at h
      have htaken : ∀ e ∈ es, e ∈ s.list (.input ps) := fun e he =>
        hperm.mem_iff.mp (List.mem_append_left xs he)
      set u := (s.setList (.input ps) xs).give es att
      have hu : ∀ l, ∀ e ∈ u.list l, e ∈ s.list l := by
        intro l e he
        have hlist : u.list = Function.update s.list (.input ps) xs := rfl
        rw [hlist] at he
        rcases eq_or_ne l (.input ps) with rfl | hl
        · rw [Function.update_self] at he
          exact hperm.mem_iff.mp (List.mem_append_right es he)
        · rwa [Function.update_of_ne hl] at he
      split at h
      case isTrue hmode =>
        have hlets : Lets (fun l e => e ∈ es ∧ l = .output (s.prevStation cfg ps)) u
            (u.restore cfg (.output (s.prevStation cfg ps)) es).2 :=
          restore_lets fun e he => ⟨he, rfl⟩
        rcases hlets.mem l e h with he | ⟨he, hl⟩
        · exact .inl (hu l e he)
        · exact .inr ⟨hps, htaken e he, .inr ⟨hmode, hl⟩⟩
      case isFalse =>
        have hlets : Lets (fun l e => e ∈ es ∧ l = .output ps) u (u.stationNwrite cfg ps es).2 :=
          stationNwrite_lets fun e he => ⟨he, rfl⟩
        rcases hlets.mem l e h with he | ⟨he, hl⟩
        · exact .inl (hu l e he)
        · exact .inr ⟨hps, htaken e he, .inl hl⟩

/-! ## Steps -/

/-- Events are read by an attachment to their station. -/
theorem goesForward_read {a : ReadArgs} {r : StationRead} (hall : AllInPlace cfg s)
    (htaken : s.taken a r ps ≠ [])
    (hps : ps = s.statOf a.att ∨ e ∉ s.list (.input ps))
    (hsame : SameLists (s.afterRead a r ps) t) : GoesForward gs s t e := by
  intro qs out qs' out' hat hat'
  have hperm := taken_perm htaken
  have hlist : ∀ l, ∀ x ∈ (s.afterRead a r ps).list l, x ∈ s.list l := fun l x hx =>
    ((mem_take hperm hall.separate l x).mp hx).1
  refine goesForward_of_at hall (fun _ => ?_) hat hat'
  have hafter := hat'.of_same hsame
  cases hafter with
  | input h => exact .input (hlist _ e h)
  | output h => exact .output (hlist _ e h)
  | @held att hactive howner hstat =>
      have hgive : (s.afterRead a r ps).owner e = if e ∈ s.taken a r ps then a.att else s.owner e :=
        rfl
      rw [hgive] at howner
      split at howner
      case isFalse => exact .held hactive howner hstat
      case isTrue hin =>
        have hmem : e ∈ s.list (.input ps) := hperm.mem_iff.mp (List.mem_append_left _ hin)
        have hat : (s.afterRead a r ps).statOf att = ps := by
          rw [hps.resolve_right (not_not.mpr hmem), howner]
          rfl
        rw [← hstat, hat]
        exact .input hmem

/-- Events are returned by an attachment. -/
theorem goesForward_puts {l : ListName} {a : ℤ} (hall : AllInPlace cfg s)
    (haccepts : s.Accepts a es) (hl : l = .output (s.statOf a) ∨ l = .input 0)
    (hputs : Puts s t l es) (haway : e ∉ t.list (.input 0)) : GoesForward gs s t e := by
  intro ps out qs out' hat hat'
  -- an event of the array was with the attachment
  have hheld : e ∈ es → ps = s.statOf a ∧ out = false := by
    intro he
    obtain ⟨att, rfl⟩ := Int.eq_ofNat_of_zero_le haccepts.1
    have howner := haccepts.2 e he
    cases hat with
    | input h => exact absurd h (hall.notMem haccepts.1 howner _)
    | held _ howner' hstat =>
        obtain rfl := Int.ofNat_inj.mp (howner'.symm.trans howner)
        exact ⟨hstat.symm, rfl⟩
    | output h => exact absurd h (hall.notMem haccepts.1 howner _)
  cases hat' with
  | input h =>
      rcases (hputs.mem _ e).mp h with hin | ⟨rfl, he⟩
      · exact goesForward_of_at hall (fun _ => .input hin) hat (.input h)
      · rcases hl with hl | hl
        · cases hl
        · obtain rfl := ListName.input.inj hl
          exact absurd h haway
  | output h =>
      rcases (hputs.mem _ e).mp h with hin | ⟨rfl, he⟩
      · exact goesForward_of_at hall (fun _ => .output hin) hat (.output h)
      · rcases hl with hl | hl
        · obtain ⟨rfl, rfl⟩ := hheld he
          rw [ListName.output.inj hl]
          exact progress_false_le gs _ true
        · cases hl
  | @held att hactive howner hstat =>
      have hactive' : s.Attached att := by
        unfold Attached at hactive ⊢
        rwa [hputs.attach] at hactive
      have hnot : s.owner e = att := by
        rw [hputs.owner] at howner
        split at howner
        · exact absurd howner (ne_of_lt (lt_of_lt_of_le (by decide) (Int.natCast_nonneg att)))
        · exact howner
      refine goesForward_of_at hall (fun _ => ?_) hat (.held hactive howner hstat)
      exact .held hactive' hnot ((statOf_congr (congrFun hputs.attach att)).symm.trans hstat)

/-- A conductor passes a batch on to the stations behind. -/
theorem Passes.goesForward {me : ℕ} {given : ℕ → List ℕ} (hall : AllInPlace cfg s)
    (hpass : Passes s t me given) (howner : t.owner = s.owner) (hattach : t.attach = s.attach)
    (hlater : ∀ ps, ps ≠ 0 → given ps ≠ [] → groupNumber gs me < groupNumber gs ps)
    (haway : e ∉ t.list (.input 0)) : GoesForward gs s t e := by
  intro ps out qs out' hat hat'
  cases hat' with
  | input h =>
      have hqs : qs ≠ 0 := by
        rintro rfl
        exact haway h
      have hmem := h
      rw [hpass.input qs hqs, (llistWrite_perm ..).mem_iff, List.mem_append] at hmem
      rcases hmem with hin | hgiven
      · exact goesForward_of_at hall (fun _ => .input hin) hat (.input h)
      · have hout : s.At e me true := .output ((hpass.deals.all e).mpr ⟨qs, hgiven⟩)
        obtain ⟨rfl, rfl⟩ := hat.unique hall hout
        exact Prod.Lex.toLex_le_toLex.mpr (.inl (hlater qs hqs (List.ne_nil_of_mem hgiven)))
  | output h =>
      refine goesForward_of_at hall (fun _ => .output ?_) hat (.output h)
      rw [hpass.output] at h
      split at h
      · exact absurd h List.not_mem_nil
      · exact h
  | @held att hactive hown hstat =>
      refine goesForward_of_at hall (fun _ => ?_) hat (.held hactive hown hstat)
      unfold Attached at hactive
      rw [hattach] at hactive
      rw [howner] at hown
      exact .held hactive hown ((statOf_congr (congrFun hattach att)).symm.trans hstat)

theorem etStationAttach_goesForward (hall : AllInPlace cfg s) (ps : ℕ) :
    GoesForward gs s (s.etStationAttach cfg ps).2 e := by
  have hsame : GoesForward gs s s e := (SameLists.refl s).goesForward hall
  unfold etStationAttach
  split
  · exact hsame
  split
  · exact hsame
  split
  · exact hsame
  split
  · exact hsame
  split
  case h_1 => exact hsame
  case h_2 i hi =>
    intro qs out qs' out' hat hat'
    refine goesForward_of_at hall (fun _ => ?_) hat hat'
    cases hat' with
    | input h => exact .input h
    | output h => exact .output h
    | @held att hactive howner hstat =>
        have hattached : s.Attached att := hall.attached howner
        -- the new attachment has no events yet
        have hnot : att ≠ i := by
          rintro rfl
          have hfree := List.find?_some hi
          rw [show (s.attach att).active = true from hattached] at hfree
          exact Bool.false_ne_true hfree
        refine .held hattached howner (Eq.trans (statOf_congr ?_).symm hstat)
        exact Function.update_of_ne hnot ..

/-- A detach moves no event back, unless it restores events into an output list. -/
theorem etStationDetach_goesForward {cleanup : Bool} {interrupt : Option NoEvent}
    (hall : AllInPlace cfg s)
    (hback : ∀ qs p, ¬ (EventStep.detach att cleanup interrupt os).restores cfg s (.output qs) p)
    (haway : e ∉ (s.etStationDetach cfg cleanup interrupt os att).2.list (.input 0)) :
    GoesForward gs s (s.etStationDetach cfg cleanup interrupt os att).2 e := by
  rcases s.etStationDetach_cases cfg cleanup interrupt os att with heq | ⟨ps, -, hps, heq⟩
  case inl =>
    rw [heq]
    exact (SameLists.refl s).goesForward hall
  case inr =>
    rw [heq] at haway ⊢
    have hredist : (s.stations.config ps).restoreMode = .redist → ps ≠ 0 → ∀ x,
        s.owner x = att ∨ s.stations.nattachments ps = 1 ∧ x ∈ s.list (.input ps) → False :=
      fun hmode h0 x hx => hback _ _ ⟨ps, hps, h0, .inr ⟨hmode, rfl, x, hx, rfl⟩⟩
    obtain ⟨-, howner, -, hmoves⟩ := hall.beforeRestore interrupt att ps
    -- the flush
    have hmem : ∀ l, ∀ x ∈ (s.beforeRestore cfg interrupt att ps).list l,
        x ∈ s.list l ∨ x ∈ s.list (.input ps) ∧ l = .output ps := by
      intro l x hx
      unfold beforeRestore at hx
      split at hx
      case isTrue hlast =>
        rcases etFlushEvents_mem l hx with hx | ⟨h0, hx, hl | ⟨hmode, -⟩⟩
        · exact .inl hx
        · exact .inr ⟨hx, hl⟩
        · exact (hredist hmode h0 x (.inr ⟨hlast.1, hx⟩)).elim
      case isFalse => exact .inl hx
    have hattach : (s.beforeRestore cfg interrupt att ps).attach =
        Function.update s.attach att ⟨false, some ps⟩ := by
      rw [hmoves]
      rfl
    have hconfig : (s.beforeRestore cfg interrupt att ps).stations.config = s.stations.config := by
      rw [hmoves]
      rfl
    have hlets := @etRestoreEvents_lets cfg os ps att cleanup (s.beforeRestore cfg interrupt att ps)
    set v := (s.beforeRestore cfg interrupt att ps).etRestoreEvents cfg cleanup os att ps
    intro qs out qs' out' hat hat'
    have hstat : s.statOf att = ps := by
      rw [show s.statOf att = (s.attach att).stat.getD 0 from rfl, hps]
      rfl
    -- an event that is in a list now
    have hlist : ∀ l, e ∈ v.list l → e ∈ s.list l ∨
        s.At e ps false ∧ (l = .input 0 ∨ l = .input ps ∨ l = .output ps) := by
      intro l he
      rcases hlets.mem l e he with he | ⟨hown, hl⟩
      · rcases hmem l e he with he | ⟨he, hl⟩
        · exact .inl he
        · exact .inr ⟨.input he, .inr (.inr hl)⟩
      · rw [howner] at hown
        have hat : s.At e ps false := At.held (hall.attached hown) hown hstat
        rcases hl with hl | hl | hl | ⟨hmode, h0, -⟩
        · exact .inr ⟨hat, .inl hl⟩
        · exact .inr ⟨hat, .inr (.inl hl)⟩
        · exact .inr ⟨hat, .inr (.inr hl)⟩
        · rw [hconfig] at hmode
          exact (hredist hmode h0 e (.inl hown)).elim
    cases hat' with
    | input h =>
        rcases hlist _ h with hin | ⟨hat₀, hl⟩
        · exact goesForward_of_at hall (fun _ => .input hin) hat (.input h)
        · obtain ⟨rfl, rfl⟩ := hat.unique hall hat₀
          rcases hl with hl | hl | hl
          · rw [hl] at h
            exact absurd h haway
          · rw [ListName.input.inj hl]
          · cases hl
    | output h =>
        rcases hlist _ h with hin | ⟨hat₀, hl⟩
        · exact goesForward_of_at hall (fun _ => .output hin) hat (.output h)
        · obtain ⟨rfl, rfl⟩ := hat.unique hall hat₀
          rcases hl with hl | hl | hl
          · cases hl
          · cases hl
          · rw [ListName.output.inj hl]
            exact progress_false_le gs _ true
    | @held att' hactive hown hstat' =>
        refine goesForward_of_at hall (fun _ => ?_) hat (.held hactive hown hstat')
        have hattach' : v.attach = Function.update s.attach att ⟨false, some ps⟩ :=
          hlets.attach.trans hattach
        unfold Attached at hactive
        unfold countedDown at hactive hown
        dsimp only at hactive hown
        rw [hattach'] at hactive
        have hne : att' ≠ att := by
          rintro rfl
          rw [Function.update_self] at hactive
          exact Bool.false_ne_true hactive
        rw [Function.update_of_ne hne] at hactive
        have hsys : s.owner e = att' := by
          rcases hlets.owner e with heq | heq
          · rwa [heq, howner] at hown
          · rw [heq] at hown
            exact absurd hown (ne_of_lt (lt_of_lt_of_le (by decide) (Int.natCast_nonneg att')))
        refine .held hactive hsys (Eq.trans (statOf_congr ?_).symm hstat')
        exact (congrFun hattach' att').trans (Function.update_of_ne hne ..)

end EventSystem

open EventSystem

variable {cfg : EventConfig} {s t : EventSystem} {e : ℕ} {gs : List Group}

/-- **An event call** moves no event back. -/
theorem LocalCall.goesForward (hall : AllInPlace cfg s) (os : OsAnswers) (c : LocalCall)
    (hc : c.NamesOnce s) (hstart : e ∉ s.list (.input 0))
    (hend : e ∉ (c.perform cfg os s).2.list (.input 0)) :
    GoesForward gs s (c.perform cfg os s).2 e := by
  have hsame : GoesForward gs s s e := (SameLists.refl s).goesForward hall
  have hnew : ∀ a r size, GoesForward gs s (s.newCall cfg os a r size).2 e := by
    intro a r size
    rcases s.newCall_cases cfg os a r size with heq | ⟨⟨-, -, htaken⟩, heq⟩
    · rw [heq]
      exact hsame
    · rw [heq]
      exact goesForward_read hall htaken (.inr hstart) makeBuffers_same
  have hget : ∀ a r, GoesForward gs s (s.getCall os a r).2 e := by
    intro a r
    rcases s.getCall_cases os a r with heq | ⟨⟨-, -, -, htaken⟩, heq⟩
    · rw [heq]
      exact hsame
    · rw [heq]
      exact goesForward_read hall htaken (.inl rfl) attachAll_same
  have hdump : ∀ att es, (s.Accepts att es → es.Nodup) →
      e ∉ (s.etEventsDump cfg os att (some es)).2.list (.input 0) →
      GoesForward gs s (s.etEventsDump cfg os att (some es)).2 e := by
    intro att es hes haway
    rcases etEventsDump_moves hall hes with hsame | ⟨haccepts, -, hputs⟩
    · exact hsame.goesForward hall
    · exact goesForward_puts hall haccepts (.inr rfl) hputs haway
  cases c with
  | new a size => exact hnew a .read size
  | newMany a size num =>
      unfold LocalCall.perform etEventsNew
      dsimp only
      split
      · exact hsame
      · split
        · exact hsame
        · exact hnew _ _ _
  | newGroup a size num group =>
      unfold LocalCall.perform etEventsNewGroup
      dsimp only
      split
      · exact hsame
      · split
        · exact hsame
        · split
          · exact hsame
          · exact hnew _ _ _
  | get a => exact hget a .read
  | getMany a num =>
      unfold LocalCall.perform etEventsGet
      dsimp only
      split
      · exact hsame
      · split
        · exact hsame
        · exact hget _ _
  | put att pe =>
      cases pe with
      | none => exact hsame
      | some x =>
          rcases etEventPut_moves hall with hsame | ⟨haccepts, hputs⟩
          · exact hsame.goesForward hall
          · exact goesForward_puts hall haccepts (.inl rfl) hputs hend
  | putMany att pe =>
      cases pe with
      | none => exact hsame
      | some es =>
          rcases etEventsPut_moves hall (hc es rfl) with hsame | ⟨haccepts, -, hputs⟩
          · exact hsame.goesForward hall
          · exact goesForward_puts hall haccepts (.inl rfl) hputs hend
  | dump att pe =>
      cases pe with
      | none => exact hsame
      | some x =>
          have heq := etEventDump_eq hall os att x
          unfold LocalCall.perform at hend ⊢
          dsimp only at hend ⊢
          rw [heq] at hend ⊢
          exact hdump att [x] (fun _ => List.nodup_singleton x) hend
  | dumpMany att pe =>
      cases pe with
      | none => exact hsame
      | some es => exact hdump att es (hc es rfl) hend

/-! ## Runs -/

/-- The conductors go along the chain `gs`. -/
def EventStep.Along (gs : List Group) : EventStep → Prop
  | .conduct _ gs' _ _ _ => gs' = gs
  | _ => True

/-- A step that loses no event and restores none into an output list, with the event `e` not in
GRAND_CENTRAL's list. -/
def AwayStep (cfg : EventConfig) (gs : List Group) (e : ℕ) (s t : EventSystem) : Prop :=
  e ∉ s.list (.input 0) ∧ e ∉ t.list (.input 0) ∧ ∃ a : EventStep, a.KeepsEvents cfg s ∧
    a.Along gs ∧ (∀ ps p, ¬ a.restores cfg s (.output ps) p) ∧ (eventMachine cfg).step s a t

theorem AwayStep.goesForward (hall : AllInPlace cfg s) (h : AwayStep cfg gs e s t) :
    AllInPlace cfg t ∧ GoesForward gs s t e := by
  obtain ⟨hstart, hend, a, hkeeps, halong, hback, hfits, hnext⟩ := h
  refine ⟨hall.next a hkeeps hfits hnext, ?_⟩
  cases a with
  | call c os =>
      obtain rfl := Option.some.inj hnext
      exact c.goesForward hall _ hkeeps hstart hend
  | conduct me gs' select eventsTry os =>
      obtain rfl : gs' = gs := halong
      obtain ⟨u, hu, rfl⟩ := Option.map_eq_some_iff.mp hnext
      obtain ⟨given, hpass, hlater⟩ := pass_passes hall hfits.1 hfits.2 hkeeps hu os
      have hsame := dropAll_same s true os (s.returned u)
      exact hpass.goesForward hall hsame.owner hsame.attach
        (fun ps hps hne =>
          groupNumber_lt_of_following hfits.1.nodup hfits.2 (hlater ps hps hne)) hend
  | attach ps =>
      obtain rfl := Option.some.inj hnext
      exact etStationAttach_goesForward hall ps
  | detach att cleanup interrupt os =>
      obtain rfl := Option.some.inj hnext
      exact etStationDetach_goesForward hall hback hend
  | setFields x priority datastatus length control =>
      obtain rfl := Option.some.inj hnext
      exact (setHdr_same ..).goesForward hall

theorem goesForward_of_run (hall : AllInPlace cfg s) (h : ReflTransGen (AwayStep cfg gs e) s t) :
    AllInPlace cfg t ∧ GoesForward gs s t e := by
  induction h with
  | refl => exact ⟨hall, (SameLists.refl s).goesForward hall⟩
  | tail _ hstep ih =>
      obtain ⟨hmiddle, hforward⟩ := ih
      obtain ⟨hnext, hforward'⟩ := hstep.goesForward hmiddle
      refine ⟨hnext, fun ps out qs out' hat hat' => ?_⟩
      obtain ⟨rs, out'', hbetween⟩ := exists_at hmiddle (hat.lt hall)
      exact (hforward _ _ _ _ hat hbetween).trans (hforward' _ _ _ _ hbetween hat')

/-- **Events go forward along the chain.**  As long as an event does not come back to
GRAND_CENTRAL's list, and no event is restored into an output list, it is never at a station of an
earlier group again; and once it is in the output list of a station, it is never in the input list
or with an attachment of a station of this group again. -/
theorem events_go_forward {ps qs : ℕ} {out out' : Bool}
    (hreach : (eventMachine cfg).Reach (fun s a => a.KeepsEvents cfg s) s)
    (h : ReflTransGen (AwayStep cfg gs e) s t) (hstart : s.At e ps out) (hend : t.At e qs out') :
    progress gs ps out ≤ progress gs qs out' := by
  exact (goesForward_of_run (allInPlace_of_reach hreach) h).2 ps out qs out' hstart hend

/-- An event is made by an attachment to station `1`, and put. -/
theorem events_go_forward_example :
    ∃ s t, (eventMachine freshConfig).Reach (fun s a => a.KeepsEvents freshConfig s) s ∧
      ReflTransGen (AwayStep freshConfig [(0, []), (1, [])] 0) s t ∧
      s.At 0 1 false ∧ t.At 0 1 true ∧
      progress [(0, []), (1, [])] 1 false ≤ progress [(0, []), (1, [])] 1 true := by
  have h0 : (eventMachine freshConfig).Reach (fun s a => a.KeepsEvents freshConfig s)
      startedEvents := .start fresh_startedEvents
  have h1 := eventMachine_next h0 (.attach 1) trivial trivial rfl
  have h2 := eventMachine_next h1 (.call (askForEvent 100) .fine) trivial trivial rfl
  have honce := @LocalCall.namesOnce_putMany 0 _ (List.nodup_singleton 0)
  have hput : ∀ s : EventSystem, (eventMachine freshConfig).Reach
      (fun s a => a.KeepsEvents freshConfig s) s → 0 ∉ s.list (.input 0) →
      0 ∉ ((LocalCall.putMany 0 (some [0])).perform freshConfig OsAnswers.fine.alone s).2.list
        (.input 0) →
      AwayStep freshConfig [(0, []), (1, [])] 0 s
        ((LocalCall.putMany 0 (some [0])).perform freshConfig OsAnswers.fine.alone s).2 :=
    fun s _ hs ht => ⟨hs, ht, .call (.putMany 0 (some [0])) .fine, honce s, trivial,
      fun _ _ => id, trivial, rfl⟩
  have hrun := ReflTransGen.single (hput _ h2 (by decide) (by decide))
  refine ⟨_, _, h2, hrun, ?_, .output (by decide),
    events_go_forward h2 hrun ?_ (.output (by decide))⟩
  · exact @At.held _ _ _ 0 rfl (by decide) (by decide)
  · exact @At.held _ _ _ 0 rfl (by decide) (by decide)

end EventTransfer
