import EventTransfer.ConductorChain
import EventTransfer.ConductorCues

/-!
# Whole passes of a conductor

A pass may come to stations that take events and to groups that deal them out.  A group that deals
out events gets all that are left, and deals well if it writes each of them once
(`Pass.DealsWell`): a round-robin group that comes first, or behind stations that have taken
nothing from the front of the batch; an equal-cue group where no product is too big for an `int`.

* `HandsOut` — what a pass does to the input lists, when each event of the batch goes into one.
* `conductor_handsOut` — it does so along any chain whose groups all deal well.
-/

namespace EventTransfer

open WaterFill

/-- **A group deals well** with the events that are left when a pass comes to it. -/
def Pass.DealsWell (w : Pass) (g : Group) : Prop :=
  w.eventsLeft ≠ 0 → w.stations.actives (g.1 :: g.2) ≠ [] → ¬ w.stations.TakesEvents g →
    if (w.stations.config g.1).selectMode = .rrobin then
      ∀ x ∈ w.batch.take (min (w.stations.actives (g.1 :: g.2)).length w.left.length - 1),
        x.2 = false
    else
      RisesWithin intMax (w.stations.actives (g.1 :: g.2)).length
        (fun i => ((w.stations.actives (g.1 :: g.2)).map fun ps => (w.listIn ps).length).getD
          (i - 1) 0) w.left.length

/-- All groups that a pass comes to deal well. -/
def Pass.AllDealWell (hdr : ℕ → EventHeader) (nevents : ℕ) (select : ℕ → ℕ → Bool) :
    List Group → Pass → Prop
  | [], _ => True
  | g :: gs, w => w.DealsWell g ∧ ∀ u, w.stop hdr nevents select g = some u →
      AllDealWell hdr nevents select gs { u with firstimethruloop := false }

theorem Pass.allDealWell_singleton {w : Pass} {g : Group} (h : w.stations.TakesEvents g)
    (hdr : ℕ → EventHeader) (nevents : ℕ) (select : ℕ → ℕ → Bool) :
    w.AllDealWell hdr nevents select [g] :=
  ⟨fun _ _ hnot => absurd h hnot, fun _ _ => trivial⟩

/-- **Some stations have been given events**, and other events are left. -/
structure Parts (hdr : ℕ → EventHeader) (targets : List ℕ) (w u : Pass) (given : ℕ → List ℕ) :
    Prop where
  stations : u.stations = { w.stations with waslast := u.stations.waslast }
  ntemps : u.ntemps = w.ntemps
  only : ∀ ps, ps ∉ targets → given ps = []
  lists : ∀ ps, u.listIn ps = llistWrite (isHigh hdr) (w.listIn ps) (given ps)
  perm : (targets.flatMap given ++ u.left).Perm w.left

/-- **What a pass does** to the table, the input lists and the number of temporary events, when it
gives the events of the batch to the stations. -/
structure HandsOut (hdr : ℕ → EventHeader) (targets batch : List ℕ) (s : Stations)
    (listIn : ℕ → List ℕ) (ntemps : ℤ) (u : Pass) (given : ℕ → List ℕ) : Prop where
  stations : u.stations = { s with waslast := u.stations.waslast }
  ntemps : u.ntemps = ntemps - (given 0).countP fun e => (hdr e).temp = .temp
  only : ∀ ps, ps ∉ targets → ps ≠ 0 → given ps = []
  lists : ∀ ps, ps ≠ 0 → u.listIn ps = llistWrite (isHigh hdr) (listIn ps) (given ps)
  grandCentral : u.listIn 0 = listIn 0 ++ given 0
  perm : (targets.flatMap given ++ given 0).Perm batch

section Parts

variable {hdr : ℕ → EventHeader} {select : ℕ → ℕ → Bool} {nevents : ℕ}
  {targets targets₁ targets₂ : List ℕ} {w u v : Pass} {given given₁ given₂ : ℕ → List ℕ}
  {g : Group}

theorem Feeds.parts (h : Feeds hdr select targets w u given) : Parts hdr targets w u given :=
  ⟨by rw [h.stations], h.ntemps, fun ps hps => (h.only ps hps).1, h.lists, h.perm⟩

/-- Each station takes its events in their order. -/
theorem Feeds.given_sublist (h : Feeds hdr select targets w u given) (ps : ℕ) :
    (given ps).Sublist w.left := by
  by_cases hps : ps ∈ targets
  · obtain ⟨before, after, hsplit⟩ := List.append_of_mem hps
    rw [h.accepts before ps after hsplit]
    exact (accepted_sublist ..).trans List.filter_sublist
  · rw [(h.only ps hps).1]
    exact List.nil_sublist _

theorem parts_nothing (h : w.left = [] ∨ targets = []) : Parts hdr targets w w fun _ => [] :=
  (@feeds_nothing hdr (fun _ _ => true) targets w h).parts

/-- The flag `firstimethruloop` is not looked at any more. -/
theorem Parts.congr_left {w' : Pass} (h : Parts hdr targets w' u given)
    (hw : w' = { w with firstimethruloop := false }) : Parts hdr targets w u given := by
  subst hw
  exact ⟨h.stations, h.ntemps, h.only, h.lists, h.perm⟩

theorem Parts.actives (h : Parts hdr targets w u given) (xs : List ℕ) :
    u.stations.actives xs = w.stations.actives xs := by
  rw [h.stations]
  rfl

/-- **One part after the other.** -/
theorem Parts.trans (h₁ : Parts hdr targets₁ w u given₁) (h₂ : Parts hdr targets₂ u v given₂)
    (hd : targets₁.Disjoint targets₂) :
    Parts hdr (targets₁ ++ targets₂) w v fun ps => given₁ ps ++ given₂ ps := by
  have hflat₁ : (targets₁.flatMap fun ps => given₁ ps ++ given₂ ps) = targets₁.flatMap given₁ :=
    flatMap_congr_nil fun ps hps => h₂.only ps (hd hps)
  have hflat₂ : (targets₂.flatMap fun ps => given₁ ps ++ given₂ ps) = targets₂.flatMap given₂ :=
    flatMap_nil_congr fun ps hps => h₁.only ps (hd.symm hps)
  refine ⟨?_, h₂.ntemps.trans h₁.ntemps, fun ps hps => ?_, fun ps => ?_, ?_⟩
  · rw [h₂.stations, h₁.stations]
  · rw [List.mem_append, not_or] at hps
    rw [h₁.only ps hps.1, h₂.only ps hps.2, List.nil_append]
  · rw [h₂.lists, h₁.lists]
    by_cases hps : ps ∈ targets₁
    · rw [h₂.only ps (hd hps), List.append_nil, llistWrite_nil]
    · rw [h₁.only ps hps, llistWrite_nil, List.nil_append]
  · rw [List.flatMap_append, hflat₁, hflat₂, List.append_assoc]
    exact (h₂.perm.append_left _).trans h₁.perm

/-! ### A group that deals -/

/-- What the stations of a group are given is what is written. -/
theorem flatMap_written_perm {writes : List Write} (htargets : targets.Nodup)
    (honly : ∀ x ∈ writes, x.1 ∈ targets) :
    (targets.flatMap (written writes)).Perm (writes.flatMap Prod.snd) := by
  induction writes with
  | nil =>
      have hnil : targets.flatMap (written []) = [] :=
        List.flatMap_eq_nil_iff.mpr fun ps _ => written_nil ps
      rw [hnil, List.flatMap_nil]
  | cons x writes ih =>
      obtain ⟨hx, hrest⟩ := List.forall_mem_cons.mp honly
      obtain ⟨before, after, hsplit, hbefore⟩ := List.eq_append_cons_of_mem hx
      have hafter : x.1 ∉ after := by
        rw [hsplit, List.nodup_append] at htargets
        exact (List.nodup_cons.mp htargets.2.1).1
      have hone : (targets.flatMap fun ps => if x.1 = ps then x.2 else []) = x.2 := by
        have hnone : ∀ xs : List ℕ, x.1 ∉ xs →
            (xs.flatMap fun ps => if x.1 = ps then x.2 else []) = [] := fun xs hxs =>
          List.flatMap_eq_nil_iff.mpr fun ps hps => if_neg fun heq : x.1 = ps =>
            hxs (by rw [heq]; exact hps)
        rw [hsplit, List.flatMap_append, List.flatMap_cons, hnone before hbefore,
          hnone after hafter, if_pos rfl, List.append_nil, List.nil_append]
      have hcons : written (x :: writes) =
          fun ps => (if x.1 = ps then x.2 else []) ++ written writes ps :=
        funext fun ps => written_cons x writes ps
      rw [hcons, List.flatMap_cons]
      refine (List.flatMap_append_perm ..).symm.trans ?_
      rw [hone]
      exact (ih hrest).append_left x.2

variable (hdr nevents) in
/-- **Writes to the members of a group** that hand out all that is left. -/
theorem parts_deal {writes : List Write} (htargets : targets.Nodup)
    (hperm : (targets.flatMap (written writes)).Perm w.left)
    (honce : (writes.map Prod.fst).Nodup) (honly : ∀ x ∈ writes, x.1 ∈ targets)
    (hcount : w.eventsLeft = w.left.length)
    (hroom : ∀ ps, (w.listIn ps).length + w.left.length ≤ nevents) :
    ∃ u, Pass.deal hdr nevents writes w = some u ∧ Parts hdr targets w u (written writes) ∧
      u.eventsLeft = 0 := by
  have hall := (flatMap_written_perm htargets honly).length_eq
  have hlen := hperm.length_eq
  obtain ⟨u, hu, hstations, hntemps, hleft, hlists⟩ := deal_eq hdr nevents honce w fun x hx => by
    have hle : x.2.length ≤ (writes.flatMap Prod.snd).length := by
      rw [List.flatMap_def]
      exact (List.sublist_flatten_of_mem (List.mem_map_of_mem hx)).length_le
    have := hroom x.1
    omega
  have hzero : u.eventsLeft = 0 := by omega
  have hnil : u.left = [] := if_pos hzero
  refine ⟨u, hu, ⟨by rw [hstations], hntemps, fun ps hps => ?_, hlists, ?_⟩, hzero⟩
  · exact written_of_notMem fun h => hps (by
      obtain ⟨x, hx, rfl⟩ := List.mem_map.mp h
      exact honly x hx)
  · rw [hnil, List.append_nil]
    exact hperm

variable (hdr select nevents) in
/-- **The stop at a group that deals**, and deals well. -/
theorem parts_dealGroup (hok : w.Ok) (hleft : w.eventsLeft ≠ 0) (hg : (g.1 :: g.2).Nodup)
    (hne : w.stations.actives (g.1 :: g.2) ≠ []) (hdeals : ¬ w.stations.TakesEvents g)
    (hwell : w.DealsWell g) (hroom : ∀ ps, (w.listIn ps).length + w.left.length ≤ nevents) :
    ∃ u given, w.stop hdr nevents select g = some u ∧
      Parts hdr (w.stations.actives (g.1 :: g.2)) w u given ∧ u.eventsLeft = 0 ∧
        ∀ ps, (given ps).Sublist w.left := by
  have hwell' := hwell hleft hne hdeals
  have hunput : unput w.batch = w.left := (if_neg hleft).symm
  have hcount : w.eventsLeft = (unput w.batch).length := by rw [hunput, ← hok.count]
  have hnodup : (w.stations.actives (g.1 :: g.2)).Nodup := hg.filter _
  have hsharing : w.stations.isParallel g.1 = true ∧ (w.stations.config g.1).isSharing := by
    unfold Stations.TakesEvents at hdeals
    exact not_not.mp hdeals
  have hstop : w.stop hdr nevents select g = w.dealGroup hdr nevents (g.1 :: g.2)
      (w.stations.actives (g.1 :: g.2)) (w.stations.config g.1).selectMode := by
    unfold Pass.stop
    dsimp only
    rw [if_neg hne, if_pos hsharing]
  rw [hstop]
  unfold Pass.dealGroup
  split
  case isTrue hmode =>
    rw [if_pos hmode] at hwell'
    dsimp only
    -- round-robin
    have hrotated := (Stations.inTurn_dealOrder hne hg).rotated.perm
    have hnodup' : (w.stations.dealOrder (g.1 :: g.2)).Nodup := hrotated.nodup_iff.mpr hnodup
    have hne' : w.stations.dealOrder (g.1 :: g.2) ≠ [] := fun h => hne (by
      rw [h] at hrotated
      exact hrotated.nil_eq.symm)
    have hle := (unput_sublist w.batch).length_le
    rw [List.length_map] at hle
    have hround := @dealsRound_of_pieces _ w.firstimethruloop w.batch hne' hnodup' hok.fresh
      fun i hi hilen => (unputBefore_eq_iff (by omega)).mpr fun x hx => by
        refine hwell' x ((List.take_sublist_take_left ?_).subset hx)
        rw [← hunput, ← hrotated.length_eq]
        omega
    have hsub := map_fst_rrobinWrites (w.stations.dealOrder (g.1 :: g.2)) w.firstimethruloop
      w.batch w.eventsLeft
    rw [← hcount] at hround
    obtain ⟨u, hu, hparts, hzero⟩ := @parts_deal hdr nevents (w.stations.actives (g.1 :: g.2))
      { w with
        stations := w.stations.markLast (g.1 :: g.2) (w.stations.dealOrder (g.1 :: g.2))
          w.eventsLeft } _ hnodup
      ((hrotated.symm.flatMap_right _).trans (hunput ▸ hround.perm)) (hsub.nodup hnodup')
      (fun x hx => hrotated.mem_iff.mp (hround.only x hx)) hok.count hroom
    refine ⟨u, _, hu, ⟨?_, hparts.ntemps, hparts.only, hparts.lists, hparts.perm⟩, hzero,
      fun ps => ?_⟩
    · rw [hparts.stations]
      rfl
    · by_cases hps : ps ∈ w.stations.dealOrder (g.1 :: g.2)
      · obtain ⟨i, hi⟩ := List.mem_iff_getElem?.mp hps
        rw [hround.nth i ps hi, hunput]
        exact everyNth_sublist _ i w.left
      · rw [written_of_notMem fun h => hps (hsub.subset h)]
        exact List.nil_sublist _
  case isFalse hmode =>
    rw [if_neg hmode] at hwell'
    -- by the lengths of the input lists
    obtain ⟨writes, hwrites, hshares⟩ := @equalcueWrites_of_rises
      (w.stations.actives (g.1 :: g.2))
      ((w.stations.actives (g.1 :: g.2)).map fun ps => (w.listIn ps).length) w.firstimethruloop
      w.batch hnodup hne (List.length_map _) hok.fresh (by
        rw [List.length_map, hunput]
        exact hwell')
    rw [← hcount] at hwrites
    rw [hwrites, Option.bind_some]
    have hperm : ((w.stations.actives (g.1 :: g.2)).flatMap (written writes)).Perm w.left := by
      rw [hshares.events, hunput]
    obtain ⟨u, hu, hparts, hzero⟩ := parts_deal hdr nevents hnodup hperm hshares.once hshares.only
      hok.count hroom
    refine ⟨u, _, hu, hparts, hzero, fun ps => ?_⟩
    by_cases hps : ps ∈ w.stations.actives (g.1 :: g.2)
    · rw [← hunput, ← hshares.events, List.flatMap_def]
      exact List.sublist_flatten_of_mem (List.mem_map_of_mem hps)
    · rw [hparts.only ps hps]
      exact List.nil_sublist _

/-! ### The pass -/

variable (hdr select nevents) in
/-- **The stops of a pass**, and then it is GRAND_CENTRAL's turn if something is left.  A station
is given its events in their order. -/
theorem parts_conduct {gs : List Group} (hnodup : (members gs).Nodup) (hok : w.Ok)
    (hroom : ∀ ps, (w.listIn ps).length + w.left.length ≤ nevents)
    (hwell : w.AllDealWell hdr nevents select gs) :
    ∃ m given, Parts hdr (w.stations.actives (members gs)) w m given ∧ m.Ok ∧
      (∀ q, (m.listIn q).length + m.left.length ≤ nevents) ∧
      (∀ ps, (given ps).Sublist w.left) ∧ m.left.Sublist w.left ∧
      Pass.conduct hdr nevents select gs w =
        if m.eventsLeft = 0 then some m else m.finish hdr nevents := by
  have hnothing : ∀ xs : List ℕ, ∀ ps : ℕ, ((fun _ => []) ps : List ℕ).Sublist xs := fun xs _ =>
    List.nil_sublist xs
  induction gs generalizing w with
  | nil => exact ⟨w, _, parts_nothing (.inr rfl), hok, hroom, hnothing _, .refl _, rfl⟩
  | cons g gs ih =>
      by_cases hleft : w.eventsLeft = 0
      case pos =>
        refine ⟨w, _, parts_nothing (.inl (if_pos hleft)), hok, hroom, hnothing _, .refl _, ?_⟩
        unfold Pass.conduct
        rw [if_pos hleft, if_pos hleft]
      case neg =>
        have hsplit : members (g :: gs) = (g.1 :: g.2) ++ members gs := rfl
        rw [hsplit, List.nodup_append'] at hnodup
        obtain ⟨hg, hgs, hdisjoint⟩ := hnodup
        obtain ⟨hgwell, hgswell⟩ := hwell
        -- the stop at the group
        obtain ⟨u, given, hstop, hparts, hok', hroom', horder, hsub⟩ : ∃ u given,
            w.stop hdr nevents select g = some u ∧
              Parts hdr (w.stations.actives (g.1 :: g.2)) w u given ∧
              ({ u with firstimethruloop := false } : Pass).Ok ∧
              (∀ q, (u.listIn q).length + u.left.length ≤ nevents) ∧
              (∀ ps, (given ps).Sublist w.left) ∧ u.left.Sublist w.left := by
          by_cases hnone : w.stations.actives (g.1 :: g.2) = []
          · refine ⟨w, _, ?_, parts_nothing (.inr hnone), ⟨hok.count, (fun h => by cases h), hok.nodup⟩, hroom,
              hnothing _, .refl _⟩
            unfold Pass.stop
            exact if_pos hnone
          by_cases htakes : w.stations.TakesEvents g
          · obtain ⟨u, given, hu, hfeeds, hok', hroom'⟩ := feeds_serveAll hdr select nevents
              (hg.filter _) hok hroom
            refine ⟨u, given, ?_, hfeeds.parts, hok', hroom', hfeeds.given_sublist,
              hfeeds.left ▸ List.filter_sublist⟩
            unfold Pass.stop
            dsimp only
            rw [if_neg hnone, if_neg htakes]
            exact hu
          · obtain ⟨u, given, hu, hparts, hzero, horder⟩ := parts_dealGroup hdr select nevents hok
              hleft hg hnone htakes hgwell hroom
            have hnil : u.left = [] := if_pos hzero
            have hnil' : ({ u with firstimethruloop := false } : Pass).left = [] := hnil
            refine ⟨u, given, hu, hparts, ⟨?_, (fun h => by cases h), ?_⟩, fun q => ?_, horder,
              hnil ▸ List.nil_sublist _⟩
            · rw [hnil']
              exact hzero
            · rw [hnil']
              exact List.nodup_nil
            · have hmem := hparts.perm.length_eq
              have hin : (given q).length ≤ w.left.length := by
                by_cases hq : q ∈ w.stations.actives (g.1 :: g.2)
                · rw [← hmem, List.length_append, List.flatMap_def]
                  exact ((List.sublist_flatten_of_mem (List.mem_map_of_mem hq)).length_le).trans
                    (Nat.le_add_right _ _)
                · rw [hparts.only q hq]
                  exact Nat.zero_le _
              have := hroom q
              rw [hnil, hparts.lists, length_llistWrite, List.length_nil]
              omega
        obtain ⟨m, given', hparts', hokm, hroomm, horder', hsub', hrest⟩ :=
          @ih { u with firstimethruloop := false } hgs hok' hroom' (hgswell u hstop)
        have hd : (w.stations.actives (g.1 :: g.2)).Disjoint (w.stations.actives (members gs)) :=
          fun a ha hb => hdisjoint (List.mem_filter.mp ha).1 (List.mem_filter.mp hb).1
        have hactives : w.stations.actives (members (g :: gs)) =
            w.stations.actives (g.1 :: g.2) ++ w.stations.actives (members gs) := by
          rw [hsplit]
          exact List.filter_append ..
        have hsecond := hparts'.congr_left rfl
        dsimp only at hsecond
        rw [hparts.actives] at hsecond
        refine ⟨m, _, hactives ▸ hparts.trans hsecond hd, hokm, hroomm, fun ps => ?_,
          hsub'.trans hsub, ?_⟩
        · by_cases hps : ps ∈ w.stations.actives (g.1 :: g.2)
          · rw [hsecond.only ps (hd hps), List.append_nil]
            exact horder ps
          · rw [hparts.only ps hps, List.nil_append]
            exact (horder' ps).trans hsub
        conv_lhs => unfold Pass.conduct
        rw [if_neg hleft, hstop, Option.bind_some]
        exact hrest

variable (nevents select) in
/-- **A pass hands out its batch**, along any chain whose groups all deal well.  What a station is
given is in the order of the batch. -/
theorem conductor_handsOut {s : Stations} {gs : List Group} {me : ℕ} (h : ChainOk s gs)
    (hme : me ∈ members gs) {batch : List ℕ} (hbatch : batch.Nodup) {listIn : ℕ → List ℕ}
    (hroom : ∀ ps, (listIn ps).length + batch.length ≤ nevents) {eventsTry : ℕ → ℕ} {ntemps : ℤ}
    (hwell : Pass.AllDealWell hdr nevents select (following gs me)
      ⟨s, listIn, eventsTry, ntemps, batch.map (·, false), batch.length, true⟩) :
    ∃ u given, conductor hdr nevents select gs me s listIn eventsTry ntemps batch = some u ∧
      HandsOut hdr (s.actives (members (following gs me))) batch s listIn ntemps u given ∧
      ∀ ps, (given ps).Sublist batch := by
  obtain ⟨hnodup, hzero⟩ := h.following hme
  set w : Pass := ⟨s, listIn, eventsTry, ntemps, batch.map (·, false), batch.length, true⟩ with hw
  obtain ⟨hleft, hok⟩ : w.left = batch ∧ w.Ok := pass_start s listIn eventsTry ntemps hbatch
  obtain ⟨m, given, hparts, hokm, hroomm, horder, hsub, hconduct⟩ := parts_conduct hdr select
    nevents hnodup hok (fun ps => by rw [hleft]; exact hroom ps) hwell
  rw [hleft] at horder hsub
  have horder' : ∀ ps, (Function.update given 0 m.left ps).Sublist batch := by
    intro ps
    rcases eq_or_ne ps 0 with rfl | hne
    · rw [Function.update_self]
      exact hsub
    · rw [Function.update_of_ne hne]
      exact horder ps
  set targets := s.actives (members (following gs me)) with htargets
  have hnot0 : 0 ∉ targets := fun hmem => hzero (List.mem_filter.mp hmem).1
  have hnone : given 0 = [] := hparts.only 0 hnot0
  have hlist0 : m.listIn 0 = listIn 0 := by rw [hparts.lists, hnone, llistWrite_nil]
  have hperm : (targets.flatMap given ++ m.left).Perm batch := by rw [← hleft]; exact hparts.perm
  -- GRAND_CENTRAL gets what is left
  have hflat : targets.flatMap (Function.update given 0 m.left) = targets.flatMap given :=
    List.flatMap_congr fun ps hps => by
      have hne : ps ≠ 0 := fun h0 => hnot0 (h0 ▸ hps)
      exact Function.update_of_ne hne ..
  have hhands : ∀ u : Pass, u.stations = m.stations →
      u.ntemps = m.ntemps - (m.left.countP fun e => (hdr e).temp = .temp) →
      (∀ ps, ps ≠ 0 → u.listIn ps = m.listIn ps) → u.listIn 0 = m.listIn 0 ++ m.left →
        HandsOut hdr targets batch s listIn ntemps u (Function.update given 0 m.left) := by
    intro u hs hn hl h0
    refine ⟨?_, ?_, fun ps hps hne => ?_, fun ps hne => ?_, ?_, ?_⟩
    · rw [hs]
      exact hparts.stations
    · rw [hn, hparts.ntemps, Function.update_self]
    · rw [Function.update_of_ne hne]
      exact hparts.only ps hps
    · rw [Function.update_of_ne hne, hl ps hne]
      exact hparts.lists ps
    · rw [Function.update_self, h0, hlist0]
    · rw [hflat, Function.update_self]
      exact hperm
  by_cases hzero : m.eventsLeft = 0
  · have hnil : m.left = [] := if_pos hzero
    refine ⟨m, _, hconduct.trans (if_pos hzero), hhands m rfl ?_ (fun _ _ => rfl) ?_,
      horder'⟩
    · rw [hnil, List.countP_nil, Nat.cast_zero, sub_zero]
    · rw [hnil, List.append_nil]
  · have hfinish : m.finish hdr nevents = _ := finish_eq hokm hzero (hroomm 0)
    exact ⟨_, _, hconduct.trans ((if_neg hzero).trans hfinish),
      hhands { m with
        listIn := Function.update m.listIn 0 (m.listIn 0 ++ m.left)
        ntemps := m.ntemps - (m.left.countP fun e => (hdr e).temp = .temp)
        eventsLeft := 0 } rfl rfl (fun ps hne => Function.update_of_ne hne ..) (by
          dsimp only
          rw [Function.update_self]), horder'⟩

end Parts

end EventTransfer
