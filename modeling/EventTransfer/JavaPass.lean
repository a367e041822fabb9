import EventTransfer.JavaCues

/-!
# A whole pass of a Java conductor

A pass is a stop at each place behind the conductor's station, and at GRAND_CENTRAL.  Where an
equal-cue group that it comes to with events left has what the algorithm relies on
(`JavaSlot.Fits`), each stop does its part, and the parts follow one another: the pass distributes
its batch as it should (`Distributes`), and only then (`javaConductor_distributes_iff`).  The
members of the groups that are dealt to have to be blocking for that.
-/

namespace EventTransfer

open WaterFill

/-- The active members of a round-robin or equal-cue group are blocking. -/
def JavaSlot.Blocking (stat : ℕ → JavaStation) : JavaSlot → Prop
  | serial _ => True
  | group head rest =>
      (stat head).selectMode = .rrobin ∨ (stat head).selectMode = .equalcue →
        ∀ s ∈ actives stat (head :: rest), (stat s).blockMode = .blocking

/-- An equal-cue group has what the algorithm relies on. -/
def JavaSlot.Fits (stationsMax : ℕ) (stat : ℕ → JavaStation) (getList : List ℕ) : JavaSlot → Prop
  | serial _ => True
  | group head rest =>
      (stat head).selectMode = .equalcue → actives stat (head :: rest) ≠ [] →
        EqualCueFits stationsMax stat (actives stat (head :: rest)) getList

/-- **The places that a pass comes to with events left** satisfy `P`, in the state it comes to
them in and with the events that are left. -/
def Comes (hdr : ℕ → EventHeader) (select : ℕ → ℕ → Bool) (stationsMax : ℕ)
    (P : JavaSlot → (ℕ → JavaStation) → List ℕ → Prop) :
    List JavaSlot → (ℕ → JavaStation) → List ℕ → Prop
  | [], _, _ => True
  | slot :: rest, stat, getList =>
      getList = [] ∨ P slot stat getList ∧
        ∀ r, slot.stop hdr select stationsMax stat getList = some r →
          Comes hdr select stationsMax P rest r.1 r.2

/-- The places behind a station's own. -/
def JavaChain.Behind (chain : JavaChain) (self : ℕ) (slots : List JavaSlot) : Prop :=
  self = 0 ∧ slots = chain.slots ∨
    ∃ before slot, chain.slots = before ++ slot :: slots ∧ self ∈ slot.members

/-! ### One stop -/

section Stop

variable {hdr : ℕ → EventHeader} {select : ℕ → ℕ → Bool} {stationsMax : ℕ}
  {stat : ℕ → JavaStation} {batch : List ℕ}

/-- What a stop at a place does, and what more it does at a group that is dealt to. -/
structure Stops (hdr : ℕ → EventHeader) (slot : JavaSlot) (stat stat' : ℕ → JavaStation)
    (batch left : List ℕ) (given : ℕ → List ℕ) : Prop where
  hands : Hands hdr slot.members stat stat' batch left given
  cues : slot.Blocking stat → KeepsCues stat stat' given
  roundRobin : ∀ head rest, slot = .group head rest → (stat head).selectMode = .rrobin →
    actives stat (head :: rest) ≠ [] → DealtInTurn stat stat' (head :: rest) batch given
  equalCue : ∀ head rest, slot = .group head rest → (stat head).selectMode = .equalcue →
    actives stat (head :: rest) ≠ [] → DealtEvenly stat (head :: rest) batch given

/-- Blocking stations are not asked to keep their cues. -/
theorem Hands.keepsCues {members left : List ℕ} {stat' : ℕ → JavaStation} {given : ℕ → List ℕ}
    (h : Hands hdr members stat stat' batch left given)
    (hblocking : ∀ s ∈ actives stat members, (stat s).blockMode = .blocking) :
    KeepsCues stat stat' given := by
  intro s hs hne
  by_cases hmem : s ∈ actives stat members
  · exact absurd ((hblocking s hmem).symm.trans hs) nofun
  · exact absurd (h.only s hmem) hne

/-- **Every stop does its part.** -/
theorem JavaSlot.stop_spec (slot : JavaSlot) (hnodup : slot.members.Nodup) (hbatch : batch ≠ [])
    (hfits : slot.Fits stationsMax stat batch) : ∃ stat' left given,
      slot.stop hdr select stationsMax stat batch = some (stat', left) ∧
      Stops hdr slot stat stat' batch left given := by
  cases slot with
  | serial s =>
      obtain ⟨given, hhands, hcues⟩ := hands_serveAll hdr select hnodup stat batch
      exact ⟨_, _, given, rfl, hhands, fun _ => hcues, nofun, nofun⟩
  | group head rest =>
      simp only [stop]
      by_cases hnone : actives stat (head :: rest) = []
      · refine ⟨stat, batch, fun _ => [], by rw [if_pos hnone], .refl hdr _ stat batch,
          fun _ => .refl stat, ?_, ?_⟩
        · rintro _ _ ⟨⟩ - hne
          exact absurd hnone hne
        · rintro _ _ ⟨⟩ - hne
          exact absurd hnone hne
      · rw [if_neg hnone]
        split
        case h_1 hmode =>
          obtain ⟨given, hhands, hdealt⟩ := hands_dealRoundRobin hdr hnone hnodup hbatch
          refine ⟨_, _, given, rfl, hhands, fun hb => hhands.keepsCues (hb (.inl hmode)), ?_, ?_⟩
          · rintro _ _ ⟨⟩ - -
            exact hdealt
          · rintro _ _ ⟨⟩ hmode' -
            exact absurd (hmode.symm.trans hmode') nofun
        case h_2 hmode =>
          obtain ⟨stat', given, hdeal, hhands, hdealt⟩ :=
            hands_dealEqualCue hdr hnone hnodup (hfits hmode hnone)
          refine ⟨stat', [], given, by rw [hdeal]; rfl, hhands,
            fun hb => hhands.keepsCues (hb (.inr hmode)), ?_, ?_⟩
          · rintro _ _ ⟨⟩ hmode' -
            exact absurd (hmode.symm.trans hmode') nofun
          · rintro _ _ ⟨⟩ - -
            exact hdealt
        case h_3 hrr hec =>
          obtain ⟨given, hhands, hcues⟩ := hands_serveAll hdr select hnodup stat batch
          refine ⟨_, _, given, rfl, hhands, fun _ => hcues, ?_, ?_⟩
          · rintro _ _ ⟨⟩ hmode -
            exact (hrr hmode).elim
          · rintro _ _ ⟨⟩ hmode -
            exact (hec hmode).elim

/-- **A stop changes no list of another station**, whatever it relies on. -/
theorem JavaSlot.stop_input {slot : JavaSlot} (hnodup : slot.members.Nodup) (hbatch : batch ≠ [])
    {r : (ℕ → JavaStation) × List ℕ}
    (h : slot.stop hdr select stationsMax stat batch = some r) {s : ℕ} (hs : s ∉ slot.members) :
    (r.1 s).input = (stat s).input := by
  by_cases hfits : slot.Fits stationsMax stat batch
  case pos =>
    obtain ⟨stat', left, given, hstop, hspec⟩ := slot.stop_spec hnodup hbatch hfits
    obtain rfl := Option.some.inj (hstop.symm.trans h)
    rw [hspec.hands.input, hspec.hands.only s fun ha => hs (actives_subset stat _ ha),
      llistWrite_nil]
  case neg =>
    cases slot with
    | serial => exact absurd trivial hfits
    | group head rest =>
        obtain ⟨hmode, hne, -⟩ : (stat head).selectMode = .equalcue ∧
            actives stat (head :: rest) ≠ [] ∧ True := by
          by_contra hnot
          exact hfits fun hmode hne => absurd ⟨hmode, hne, trivial⟩ hnot
        rw [stop, if_neg hne, hmode] at h
        obtain ⟨stat', hdeal, rfl⟩ := Option.map_eq_some_iff.mp h
        exact congrArg JavaStation.input
          (dealEqualCue_of_notMem hdeal fun ha => hs (actives_subset stat _ ha))

end Stop

/-! ### One stop after another -/

/-- What a pass does, as far as it is said of each stop. -/
structure Passes (hdr : ℕ → EventHeader) (slots : List JavaSlot) (stat stat' : ℕ → JavaStation)
    (batch : List ℕ) (given : ℕ → List ℕ) : Prop where
  perm : ((targets stat slots).flatMap given ++ given 0).Perm batch
  only : ∀ s, s ∉ targets stat slots → s ≠ 0 → given s = []
  sublist : ∀ s, (given s).Sublist batch
  input : ∀ s, s ≠ 0 → (stat' s).input = llistWrite (isHigh hdr) (stat s).input (given s)
  grandCentral : (stat' 0).input = (stat 0).input ++ given 0
  marks : ∀ s, s ∉ slots.flatMap JavaSlot.members → (stat' s).wasLast = (stat s).wasLast
  cue : ∀ s, s ≠ 0 → (stat s).blockMode = .nonblocking → given s ≠ [] →
    (stat' s).input.length ≤ (stat s).cue
  roundRobin : ∀ before head rest after, slots = before ++ .group head rest :: after →
    (stat head).selectMode = .rrobin → actives stat (head :: rest) ≠ [] →
      ∃ left, left.Sublist batch ∧ ((targets stat before).flatMap given ++ left).Perm batch ∧
        DealtInTurn stat stat' (head :: rest) left given
  equalCue : ∀ before head rest after, slots = before ++ .group head rest :: after →
    (stat head).selectMode = .equalcue → actives stat (head :: rest) ≠ [] →
      ∃ left, left.Sublist batch ∧ ((targets stat before).flatMap given ++ left).Perm batch ∧
        DealtEvenly stat (head :: rest) left given

section Pass

variable {hdr : ℕ → EventHeader} {slots : List JavaSlot} {stat stat' : ℕ → JavaStation}
  {batch : List ℕ} {given : ℕ → List ℕ}

/-- The order of the events in the lists follows from what is written into them. -/
theorem Passes.distributes (h : Passes hdr slots stat stat' batch given) :
    Distributes hdr slots stat stat' batch given := by
  refine ⟨h.perm, h.only, h.sublist, h.input, h.grandCentral, fun s hfirst b => ?_,
    fun hbatch s hs hfirst => ?_, h.cue, h.roundRobin, h.equalCue⟩
  · rcases eq_or_ne s 0 with rfl | hs
    · rw [h.grandCentral]
      exact List.filter_append ..
    · rw [h.input s hs]
      exact (hfirst hs).filter_llistWrite _ b
  · rw [h.input s hs]
    exact hfirst.llistWrite (hbatch.sublist (h.sublist s))

/-- Nothing is dealt out. -/
theorem dealtInTurn_nil {members : List ℕ} (hne : actives stat members ≠ [])
    (hnodup : members.Nodup) : DealtInTurn stat stat' members [] fun _ => [] :=
  ⟨_, dealsInTurn_dealOrder hne hnodup, fun _ _ _ => rfl, fun h => absurd rfl h⟩

theorem dealtEvenly_nil (stat : ℕ → JavaStation) (members : List ℕ) :
    DealtEvenly stat members [] fun _ => [] :=
  ⟨List.flatMap_eq_nil_iff.mpr fun _ _ => rfl,
    Finset.sum_eq_zero fun _ _ => rfl, fun _ _ _ _ h => absurd h (lt_irrefl 0)⟩

/-- **A pass without events.** -/
theorem passes_nil (hnodup : (slots.flatMap JavaSlot.members).Nodup) :
    Passes hdr slots stat stat [] fun _ => [] := by
  have hnil : ∀ xs : List ℕ, (xs.flatMap fun _ => ([] : List ℕ)) = [] := fun xs =>
    List.flatMap_eq_nil_iff.mpr fun _ _ => rfl
  refine ⟨?_, fun _ _ _ => rfl, fun _ => .refl _, fun _ _ => rfl, (List.append_nil _).symm,
    fun _ _ => rfl, fun _ _ _ h => absurd rfl h, ?_, ?_⟩
  · rw [hnil]
    exact .refl _
  · rintro before head rest after rfl - hne
    refine ⟨[], .refl _, ?_, dealtInTurn_nil hne ?_⟩
    · rw [hnil]
      exact .refl _
    · rw [List.flatMap_append, List.flatMap_cons] at hnodup
      exact (List.nodup_append.mp (List.nodup_append.mp hnodup).2.1).1
  · rintro before head rest after rfl - -
    refine ⟨[], .refl _, ?_, dealtEvenly_nil stat _⟩
    rw [hnil]
    exact .refl _

/-- **The end of a pass**: GRAND_CENTRAL gets what is left. -/
theorem passes_grandCentral (hdr : ℕ → EventHeader) (stat : ℕ → JavaStation) (batch : List ℕ) :
    Passes hdr [] stat
      (Function.update stat 0 { stat 0 with input := (stat 0).input ++ batch }) batch
      (Function.update (fun _ => []) 0 batch) := by
  refine ⟨?_, fun s _ hs => Function.update_of_ne hs .., fun s => ?_, fun s hs => ?_, ?_,
    fun s _ => ?_, fun s hs _ hne => ?_, ?_, ?_⟩
  · rw [Function.update_self]
    exact .refl _
  · rcases eq_or_ne s 0 with rfl | hs
    · rw [Function.update_self]
    · rw [Function.update_of_ne hs]
      exact List.nil_sublist _
  · rw [Function.update_of_ne hs, Function.update_of_ne hs]
    rfl
  · rw [Function.update_self, Function.update_self]
  · rcases eq_or_ne s 0 with rfl | hs
    · rw [Function.update_self]
    · rw [Function.update_of_ne hs]
  · exact absurd (Function.update_of_ne hs ..) hne
  · intro before _ _ _ h
    simp at h
  · intro before _ _ _ h
    simp at h

/-- What is dealt to a group depends on its members alone. -/
theorem DealtInTurn.congr {stat₁ stat₂ : ℕ → JavaStation} {given₁ : ℕ → List ℕ}
    {members left : List ℕ} (h : DealtInTurn stat stat' members left given)
    (hconfig : ∀ s, (stat s).SameConfig (stat₁ s))
    (hmarks : ∀ s ∈ members, (stat₁ s).wasLast = (stat s).wasLast)
    (hmarks' : ∀ s ∈ members, (stat₂ s).wasLast = (stat' s).wasLast)
    (hgiven : ∀ s ∈ members, given₁ s = given s) : DealtInTurn stat₁ stat₂ members left given₁ := by
  obtain ⟨order, ⟨hrot, hbehind, hfirst⟩, hdealt, hlast⟩ := h
  have hactives := actives_congr hconfig
  have hmem : ∀ s ∈ order, s ∈ members := fun s hs =>
    actives_subset stat members (hrot.perm.subset hs)
  refine ⟨order, ⟨?_, fun before s after hm hmark hothers => ?_, fun hnone => ?_⟩, fun i s hi => ?_,
    fun hne s hs => ?_⟩
  · rwa [hactives]
  · rw [hactives]
    have hin : ∀ r ∈ before ++ after, r ∈ members := fun r hr => by
      rw [hm]
      exact (List.Sublist.append_left (List.sublist_cons_self s after) before).subset hr
    refine hbehind before s after hm ?_ fun r hr => ?_
    · rw [← hmarks s (hm ▸ List.mem_append_right _ List.mem_cons_self)]
      exact hmark
    · rw [← hmarks r (hin r hr)]
      exact hothers r hr
  · rw [hactives]
    exact hfirst fun s hs => (hmarks s hs).symm.trans (hnone s hs)
  · rw [hgiven s (hmem s (List.mem_of_getElem? hi))]
    exact hdealt i s hi
  · rw [hmarks' s hs]
    exact hlast hne s hs

theorem DealtEvenly.congr {stat₁ : ℕ → JavaStation} {given₁ : ℕ → List ℕ}
    {members left : List ℕ} (h : DealtEvenly stat members left given)
    (hconfig : ∀ s, (stat s).SameConfig (stat₁ s))
    (hinput : ∀ s ∈ members, (stat₁ s).input = (stat s).input)
    (hgiven : ∀ s ∈ members, given₁ s = given s) : DealtEvenly stat₁ members left given₁ := by
  obtain ⟨hflat, hfill⟩ := h
  unfold DealtEvenly
  rw [actives_congr hconfig]
  have hin : ∀ i ∈ Finset.Icc 1 (actives stat members).length,
      (actives stat members).getD (i - 1) 0 ∈ members := fun i hi => by
    have hlt : i - 1 < (actives stat members).length := by
      have := Finset.mem_Icc.mp hi
      omega
    rw [List.getD_eq_getElem _ _ hlt]
    exact actives_subset stat members (List.getElem_mem hlt)
  refine ⟨?_, hfill.congr (fun i hi => ?_) fun i hi => ?_⟩
  · rw [← hflat]
    exact List.flatMap_congr fun s hs => hgiven s (actives_subset stat members hs)
  · rw [hinput _ (hin i hi)]
  · rw [hgiven _ (hin i hi)]

/-- **A stop, and the rest of the pass.** -/
theorem Stops.passes {slot : JavaSlot} {rest : List JavaSlot} {stat₁ stat₂ : ℕ → JavaStation}
    {left : List ℕ} {given₁ given₂ : ℕ → List ℕ} (h₁ : Stops hdr slot stat stat₁ batch left given₁)
    (hblocking : slot.Blocking stat) (h₂ : Passes hdr rest stat₁ stat₂ left given₂)
    (hd : slot.members.Disjoint (rest.flatMap JavaSlot.members)) (h0 : 0 ∉ slot.members) :
    Passes hdr (slot :: rest) stat stat₂ batch fun s => given₁ s ++ given₂ s := by
  have hconfig := h₁.hands.config
  have hconfig' : ∀ s, (stat₁ s).SameConfig (stat s) := fun s =>
    ⟨(hconfig s).1.symm, (hconfig s).2.symm, (hconfig s).3.symm, (hconfig s).4.symm⟩
  have hactives : ∀ xs, actives stat₁ xs = actives stat xs := actives_congr hconfig
  have htargets : ∀ slots, targets stat₁ slots = targets stat slots := fun slots => hactives _
  have hcons : ∀ slots, targets stat (slot :: slots) =
      actives stat slot.members ++ targets stat slots := fun slots => by
    unfold targets
    rw [List.flatMap_cons, actives_append]
  -- each station gets events at one stop only
  have hin : ∀ s ∈ slot.members, given₂ s = [] := fun s hs => by
    refine h₂.only s (fun hs' => hd hs (actives_subset stat₁ _ hs')) ?_
    rintro rfl
    exact h0 hs
  have hout : ∀ s, s ∉ slot.members → given₁ s = [] := fun s hs =>
    h₁.hands.only s fun hs' => hs (actives_subset stat _ hs')
  have hfirst : ((actives stat slot.members).flatMap fun s => given₁ s ++ given₂ s) =
      (actives stat slot.members).flatMap given₁ :=
    flatMap_congr_nil fun s hs => hin s (actives_subset stat _ hs)
  have hlater : ∀ slots : List JavaSlot, (∀ slot ∈ slots, slot ∈ rest) →
      ((targets stat slots).flatMap fun s => given₁ s ++ given₂ s) =
        (targets stat slots).flatMap given₂ := fun slots hslots =>
    flatMap_nil_congr fun s hs => hout s fun hs' => by
      obtain ⟨slot', hslot', hmem⟩ := List.mem_flatMap.mp (actives_subset stat _ hs)
      exact hd hs' (List.mem_flatMap.mpr ⟨slot', hslots slot' hslot', hmem⟩)
  -- what the later stops leave of what this one has left
  have hremain : ∀ (before : List JavaSlot) (remaining : List ℕ), (∀ slot ∈ before, slot ∈ rest) →
      ((targets stat₁ before).flatMap given₂ ++ remaining).Perm left →
        ((targets stat (slot :: before)).flatMap (fun s => given₁ s ++ given₂ s) ++
          remaining).Perm batch := by
    intro before remaining hslots hperm
    rw [hcons, List.flatMap_append, hfirst, hlater before hslots, List.append_assoc]
    rw [htargets] at hperm
    exact (hperm.append_left _).trans h₁.hands.perm
  have hapart : ∀ {before after : List JavaSlot} {head : ℕ} {members : List ℕ},
      rest = before ++ .group head members :: after → ∀ s ∈ head :: members, s ∉ slot.members := by
    rintro before after head members rfl s hs hs'
    exact hd hs' (List.mem_flatMap.mpr ⟨_, List.mem_append_right _ List.mem_cons_self, hs⟩)
  refine ⟨?_, fun s hs hs0 => ?_, fun s => ?_, fun s hs0 => ?_, ?_, fun s hs => ?_,
    fun s hs0 hs hne => ?_, ?_, ?_⟩
  · rw [hout 0 h0, List.nil_append]
    exact hremain rest _ (fun _ h => h) h₂.perm
  · rw [hcons, List.mem_append, not_or] at hs
    rw [h₁.hands.only s hs.1, h₂.only s (by rw [htargets]; exact hs.2) hs0, List.append_nil]
  · by_cases hs : s ∈ slot.members
    · rw [hin s hs, List.append_nil]
      exact h₁.hands.sublist s
    · rw [hout s hs, List.nil_append]
      exact (h₂.sublist s).trans h₁.hands.left
  · rw [h₂.input s hs0, h₁.hands.input]
    by_cases hs : s ∈ slot.members
    · rw [hin s hs, List.append_nil, llistWrite_nil]
    · rw [hout s hs, List.nil_append, llistWrite_nil]
  · rw [h₂.grandCentral, h₁.hands.input, hout 0 h0, List.nil_append, llistWrite_nil]
  · rw [List.flatMap_cons, List.mem_append, not_or] at hs
    exact (h₂.marks s hs.2).trans (h₁.hands.marks s hs.1)
  · by_cases hmem : s ∈ slot.members
    · rw [hin s hmem, List.append_nil] at hne
      rw [h₂.input s hs0, hin s hmem, llistWrite_nil]
      exact h₁.cues hblocking s hs hne
    · rw [hout s hmem, List.nil_append] at hne
      exact (h₂.cue s hs0 ((hconfig s).blockMode.trans hs) hne).trans (hconfig s).cue.le
  · rintro before head members after hslots hmode hne
    cases before with
    | nil =>
        obtain ⟨rfl, rfl⟩ := List.cons.inj hslots
        refine ⟨batch, .refl _, .refl _, ?_⟩
        refine (h₁.roundRobin head members rfl hmode hne).congr (fun _ => ⟨rfl, rfl, rfl, rfl⟩)
          (fun _ _ => rfl) (fun s hs => h₂.marks s (hd hs)) fun s hs => ?_
        rw [hin s hs, List.append_nil]
    | cons slot' before =>
        obtain ⟨rfl, rfl⟩ := List.cons.inj hslots
        obtain ⟨remaining, hsub, hperm, hdealt⟩ := h₂.roundRobin before head members after rfl
          ((hconfig head).selectMode.trans hmode) (by rwa [hactives])
        have hnot := hapart rfl
        refine ⟨remaining, hsub.trans h₁.hands.left, ?_, hdealt.congr hconfig'
          (fun s hs => (h₁.hands.marks s (hnot s hs)).symm) (fun _ _ => rfl) fun s hs => ?_⟩
        · exact hremain before remaining (fun _ h => List.mem_append_left _ h) hperm
        · rw [hout s (hnot s hs), List.nil_append]
  · rintro before head members after hslots hmode hne
    cases before with
    | nil =>
        obtain ⟨rfl, rfl⟩ := List.cons.inj hslots
        refine ⟨batch, .refl _, .refl _, ?_⟩
        refine (h₁.equalCue head members rfl hmode hne).congr (fun _ => ⟨rfl, rfl, rfl, rfl⟩)
          (fun _ _ => rfl) fun s hs => ?_
        rw [hin s hs, List.append_nil]
    | cons slot' before =>
        obtain ⟨rfl, rfl⟩ := List.cons.inj hslots
        obtain ⟨remaining, hsub, hperm, hdealt⟩ := h₂.equalCue before head members after rfl
          ((hconfig head).selectMode.trans hmode) (by rwa [hactives])
        have hnot := hapart rfl
        refine ⟨remaining, hsub.trans h₁.hands.left, ?_, hdealt.congr hconfig' (fun s hs => ?_)
          fun s hs => ?_⟩
        · exact hremain before remaining (fun _ h => List.mem_append_left _ h) hperm
        · rw [h₁.hands.input, hout s (hnot s hs), llistWrite_nil]
        · rw [hout s (hnot s hs), List.nil_append]

/-- **The whole pass.** -/
theorem conduct_spec {select : ℕ → ℕ → Bool} {stationsMax : ℕ}
    (hnodup : (slots.flatMap JavaSlot.members).Nodup)
    (h0 : 0 ∉ slots.flatMap JavaSlot.members)
    (hblocking : Comes hdr select stationsMax (fun slot stat _ => slot.Blocking stat) slots stat
      batch)
    (hfits : Comes hdr select stationsMax
      (fun slot stat getList => slot.Fits stationsMax stat getList) slots stat batch) :
    ∃ stat' given,
      conduct hdr select stationsMax slots stat batch = some stat' ∧
      Passes hdr slots stat stat' batch given := by
  induction slots generalizing stat batch with
  | nil => exact ⟨_, _, rfl, passes_grandCentral hdr stat batch⟩
  | cons slot rest ih =>
      rw [conduct]
      by_cases hbatch : batch = []
      · subst hbatch
        exact ⟨stat, _, rfl, passes_nil hnodup⟩
      · rw [if_neg hbatch]
        obtain ⟨hb, hbrest⟩ := hblocking.resolve_left hbatch
        obtain ⟨hf, hfrest⟩ := hfits.resolve_left hbatch
        rw [List.flatMap_cons] at hnodup h0
        obtain ⟨hslot, hrest, hd⟩ := List.nodup_append'.mp hnodup
        rw [List.mem_append, not_or] at h0
        obtain ⟨stat₁, left, given₁, hstop, hspec⟩ := slot.stop_spec hslot hbatch hf
        obtain ⟨stat₂, given₂, hconduct, hpass⟩ := ih hrest h0.2 (hbrest _ hstop) (hfrest _ hstop)
        refine ⟨stat₂, _, ?_, hspec.passes hb hpass hd h0.1⟩
        rw [hstop]
        exact hconduct

/-- A pass changes no list of a station that is at none of the places. -/
theorem conduct_input {select : ℕ → ℕ → Bool} {stationsMax : ℕ}
    (hnodup : (slots.flatMap JavaSlot.members).Nodup)
    (h : conduct hdr select stationsMax slots stat batch = some stat') {s : ℕ}
    (hs : s ∉ slots.flatMap JavaSlot.members) (hs0 : s ≠ 0) :
    (stat' s).input = (stat s).input := by
  induction slots generalizing stat batch with
  | nil =>
      obtain rfl := Option.some.inj h
      rw [Function.update_of_ne hs0]
  | cons slot rest ih =>
      rw [conduct] at h
      split at h
      case isTrue => rw [Option.some.inj h]
      case isFalse hbatch =>
        obtain ⟨r, hstop, hrest⟩ := Option.bind_eq_some_iff.mp h
        rw [List.flatMap_cons] at hnodup hs
        obtain ⟨hslot, hnodup', -⟩ := List.nodup_append'.mp hnodup
        rw [List.mem_append, not_or] at hs
        exact (ih hnodup' hrest hs.2).trans (JavaSlot.stop_input hslot hbatch hstop hs.1)

/-- Nothing changes in the lists when no events are left. -/
theorem conduct_nil_input {select : ℕ → ℕ → Bool} {stationsMax : ℕ}
    (h : conduct hdr select stationsMax slots stat [] = some stat') (s : ℕ) :
    (stat' s).input = (stat s).input := by
  cases slots with
  | nil =>
      obtain rfl := Option.some.inj h
      rcases eq_or_ne s 0 with rfl | hs
      · rw [Function.update_self]
        exact List.append_nil _
      · rw [Function.update_of_ne hs]
  | cons slot rest =>
      rw [conduct, if_pos rfl] at h
      rw [Option.some.inj h]

/-- How many events a station has got. -/
def grown (stat stat' : ℕ → JavaStation) (s : ℕ) : ℕ :=
  (stat' s).input.length - (stat s).input.length

/-- **The lists of the equal-cue groups come out even**, as far as their lengths show it: a group
was dealt what the stations before it had left. -/
def ComesOutEven (slots : List JavaSlot) (stat stat' : ℕ → JavaStation) (events : ℕ) : Prop :=
  ∀ before head rest after, slots = before ++ .group head rest :: after →
    (stat head).selectMode = .equalcue → actives stat (head :: rest) ≠ [] →
      WaterFilling (actives stat (head :: rest)).length
        (fun i => (stat ((actives stat (head :: rest)).getD (i - 1) 0)).input.length)
        (fun i => grown stat stat' ((actives stat (head :: rest)).getD (i - 1) 0))
        (events - ((targets stat before).map (grown stat stat')).sum)

/-- What is left after a stop is dealt to the later groups. -/
theorem ComesOutEven.later {slot : JavaSlot} {rest : List JavaSlot} {stat₁ : ℕ → JavaStation}
    {left : List ℕ} (h : ComesOutEven (slot :: rest) stat stat' batch.length)
    (hspec : Hands hdr slot.members stat stat₁ batch left given)
    (hd : slot.members.Disjoint (rest.flatMap JavaSlot.members))
    (hframe : ∀ s ∈ slot.members, (stat' s).input = (stat₁ s).input) :
    ComesOutEven rest stat₁ stat' left.length := by
  have hactives : ∀ xs, actives stat₁ xs = actives stat xs := actives_congr hspec.config
  have hlater : ∀ s, s ∉ slot.members → (stat₁ s).input = (stat s).input := fun s hs => by
    rw [hspec.input, hspec.only s fun ha => hs (actives_subset stat _ ha), llistWrite_nil]
  have hgrown : ∀ s, s ∉ slot.members → grown stat₁ stat' s = grown stat stat' s := fun s hs => by
    rw [grown, grown, hlater s hs]
  have hout : ∀ slots : List JavaSlot, (∀ slot ∈ slots, slot ∈ rest) →
      ∀ s ∈ slots.flatMap JavaSlot.members, s ∉ slot.members := by
    intro slots hslots s hs hs'
    obtain ⟨slot', hslot', hmem⟩ := List.mem_flatMap.mp hs
    exact hd hs' (List.mem_flatMap.mpr ⟨slot', hslots slot' hslot', hmem⟩)
  -- what the stations of the stop have got, and what is left
  have hgot : ((actives stat slot.members).map (grown stat stat')).sum + left.length =
      batch.length := by
    rw [← hspec.perm.length_eq, List.length_append, List.length_flatMap]
    congr 2
    refine List.map_congr_left fun s hs => ?_
    rw [grown, hframe s (actives_subset stat _ hs), hspec.input, length_llistWrite,
      Nat.add_sub_cancel_left]
  rintro before head members after rfl hmode hne
  rw [hactives] at hne
  have heven := h (slot :: before) head members after rfl
    ((hspec.config head).selectMode.symm.trans hmode) hne
  have hbefore : (targets stat₁ before).map (grown stat₁ stat') =
      (targets stat before).map (grown stat stat') := by
    unfold targets
    rw [hactives]
    exact List.map_congr_left fun s hs => hgrown s <|
      hout before (fun _ h => List.mem_append_left _ h) s (actives_subset stat _ hs)
  have htotal : batch.length - ((targets stat (slot :: before)).map (grown stat stat')).sum =
      left.length - ((targets stat₁ before).map (grown stat₁ stat')).sum := by
    have hcons : targets stat (slot :: before) = actives stat slot.members ++ targets stat before := by
      unfold targets
      rw [List.flatMap_cons, actives_append]
    rw [hbefore, hcons, List.map_append, List.sum_append]
    omega
  rw [htotal] at heven
  rw [hactives]
  have hgroup : ∀ i ∈ Finset.Icc 1 (actives stat (head :: members)).length,
      (actives stat (head :: members)).getD (i - 1) 0 ∉ slot.members := fun i hi =>
    hout [.group head members] (by simp) _
      (List.mem_flatMap.mpr ⟨_, List.mem_singleton_self _, actives_subset stat _ (getD_mem hi)⟩)
  refine heven.congr (fun i hi => ?_) fun i hi => hgrown _ (hgroup i hi)
  rw [hlater _ (hgroup i hi)]

/-- **A pass after which the lists are even** has had what it relies on everywhere. -/
theorem comes_fits_of_conduct {select : ℕ → ℕ → Bool} {stationsMax : ℕ}
    (hnodup : (slots.flatMap JavaSlot.members).Nodup)
    (h0 : 0 ∉ slots.flatMap JavaSlot.members) (hbatch : batch.length ≤ intMax)
    (hcues : ∀ s ∈ slots.flatMap JavaSlot.members, (stat s).input.length ≤ intMax)
    (h : conduct hdr select stationsMax slots stat batch = some stat')
    (heven : ComesOutEven slots stat stat' batch.length) :
    Comes hdr select stationsMax
      (fun slot stat getList => slot.Fits stationsMax stat getList) slots stat batch := by
  induction slots generalizing stat batch with
  | nil => trivial
  | cons slot rest ih =>
      rw [conduct] at h
      by_cases hsome : batch = []
      · exact .inl hsome
      · rw [if_neg hsome] at h
        obtain ⟨r, hstop, hrest⟩ := Option.bind_eq_some_iff.mp h
        rw [List.flatMap_cons] at hnodup h0 hcues
        obtain ⟨hslot, hnodup', hd⟩ := List.nodup_append'.mp hnodup
        rw [List.mem_append, not_or] at h0
        have hfits : slot.Fits stationsMax stat batch := by
          cases slot with
          | serial => trivial
          | group head members =>
              intro hmode hne
              rw [JavaSlot.stop, if_neg hne, hmode] at hstop
              obtain ⟨stat₁, hdeal, rfl⟩ := Option.map_eq_some_iff.mp hstop
              have hgroup := heven [] head members rest rfl hmode hne
              refine fits_of_dealEqualCue hdr hne hslot hbatch (fun s hs => ?_) hdeal ?_
              · exact hcues s (List.mem_append_left _ (actives_subset stat _ hs))
              · -- nothing is left for the places behind
                refine hgroup.congr (fun _ _ => rfl) fun i _ => ?_
                rw [grown, conduct_nil_input hrest]
        refine .inr ⟨hfits, fun q hq => ?_⟩
        obtain rfl := Option.some.inj (hstop.symm.trans hq)
        obtain ⟨stat₁, left, given, hstop', hspec⟩ := slot.stop_spec hslot hsome hfits
        obtain rfl := Option.some.inj (hstop.symm.trans hstop')
        have hframe : ∀ s ∈ slot.members, (stat' s).input = (stat₁ s).input := fun s hs =>
          conduct_input hnodup' hrest (hd hs) (ne_of_mem_of_not_mem hs h0.1)
        refine ih hnodup' h0.2 (hspec.hands.left.length_le.trans hbatch) (fun s hs => ?_) hrest
          (heven.later hspec.hands hd hframe)
        rw [hspec.hands.input, hspec.hands.only s fun ha =>
          hd (actives_subset stat _ ha) hs, llistWrite_nil]
        exact hcues s (List.mem_append_right _ hs)

/-- A pass that distributes its batch leaves the lists even. -/
theorem Distributes.comesOutEven (h : Distributes hdr slots stat stat' batch given)
    (h0 : 0 ∉ slots.flatMap JavaSlot.members) : ComesOutEven slots stat stat' batch.length := by
  have hgrown : ∀ s ∈ slots.flatMap JavaSlot.members, grown stat stat' s = (given s).length :=
    fun s hs => by
      rw [grown, h.input s (ne_of_mem_of_not_mem hs h0), length_llistWrite,
        Nat.add_sub_cancel_left]
  rintro before head rest after rfl hmode hne
  obtain ⟨left, -, hperm, -, heven⟩ := h.equalCue before head rest after rfl hmode hne
  have hbefore : (targets stat before).map (grown stat stat') =
      (targets stat before).map fun s => (given s).length := by
    refine List.map_congr_left fun s hs => hgrown s ?_
    rw [List.flatMap_append]
    exact List.mem_append_left _ (actives_subset stat _ hs)
  have hleft : batch.length - ((targets stat before).map (grown stat stat')).sum = left.length := by
    rw [← hperm.length_eq, List.length_append, List.length_flatMap, hbefore,
      Nat.add_sub_cancel_left]
  rw [hleft]
  refine heven.congr (fun _ _ => rfl) fun i hi => hgrown _ ?_
  rw [List.flatMap_append, List.flatMap_cons]
  exact List.mem_append_right _ (List.mem_append_left _ (actives_subset stat _ (getD_mem hi)))

end Pass

/-! ### Where the pass begins -/

theorem findIdx_middle {α : Type} {p : α → Bool} {before after : List α} {a : α} (ha : p a)
    (hbefore : ∀ b ∈ before, p b = false) :
    (before ++ a :: after).findIdx p = before.length := by
  rw [List.findIdx_append, List.findIdx_eq_length.mpr hbefore, if_neg (lt_irrefl _),
    List.findIdx_cons, ha]
  exact Nat.zero_add _

/-- **The places behind the station** are those that the pass stops at. -/
theorem JavaChain.Behind.following {chain : JavaChain} {self : ℕ} {slots : List JavaSlot}
    (h : chain.Behind self slots) : chain.following self = some slots := by
  have hposition : ∀ before, chain.slots = before ++ slots →
      chain.position self = before.length → chain.following self = some slots := by
    intro before hslots hpos
    unfold JavaChain.following
    rw [hpos, hslots, if_pos (by simp), List.drop_left]
  rcases h with ⟨rfl, rfl⟩ | ⟨before, slot, hslots, hself⟩
  · exact hposition [] rfl rfl
  · have hnodup := chain.nodup
    have hzero := chain.ne_zero
    rw [hslots, List.flatMap_append, List.flatMap_cons] at hnodup hzero
    have hself0 : self ≠ 0 := by
      rintro rfl
      exact hzero (List.mem_append_right _ (List.mem_append_left _ hself))
    -- the station is at no other place
    have hbefore : ∀ slot' ∈ before, self ∉ slot'.members := fun slot' hslot' hmem =>
      (List.nodup_append'.mp hnodup).2.2 (List.mem_flatMap.mpr ⟨slot', hslot', hmem⟩)
        (List.mem_append_left _ hself)
    have hhead : ∀ slot' : JavaSlot, slot'.head ∈ slot'.members := fun slot' => by
      cases slot' <;> exact List.mem_cons_self
    refine hposition (before ++ [slot]) (by rw [hslots]; simp) ?_
    unfold JavaChain.position
    rw [if_neg hself0, hslots, List.length_append]
    split
    case isTrue hmain =>
      have hslot : slot.head = self := by
        obtain ⟨slot', hslot', heq⟩ := hmain
        have hmem : self ∈ slot'.members := heq ▸ hhead slot'
        rcases List.mem_append.mp hslot' with hb | ha
        · exact absurd hmem (hbefore slot' hb)
        · rcases List.mem_cons.mp ha with rfl | ha
          · exact heq
          · have hd := (List.nodup_append'.mp (List.nodup_append'.mp hnodup).2.1).2.2
            exact absurd (List.mem_flatMap.mpr ⟨slot', ha, hmem⟩) (hd hself)
      have hfind := @findIdx_middle _ (fun slot' : JavaSlot => decide (slot'.head = self)) _ slots _
        (decide_eq_true hslot) fun slot' hb =>
          decide_eq_false fun heq => hbefore slot' hb (heq ▸ hhead slot')
      rw [hfind]
      exact Nat.add_comm ..
    case isFalse =>
      have hfind := @findIdx_middle _ (fun slot' : JavaSlot => decide (self ∈ slot'.members)) _
        slots _ (decide_eq_true hself) fun slot' hb => decide_eq_false (hbefore slot' hb)
      rw [hfind]
      exact Nat.add_comm ..

/-- **A pass distributes its batch** exactly when every equal-cue group that it comes to with
events left has what the algorithm relies on: no more active members than the system allows
stations, and comparisons that come out right.  The groups that are dealt to have no nonblocking
members, and the sizes of the lists are `int`s. -/
theorem javaConductor_distributes_iff (hdr : ℕ → EventHeader) (select : ℕ → ℕ → Bool)
    (chain : JavaChain) (stationsMax : ℕ) {self : ℕ} {slots : List JavaSlot}
    (hbehind : chain.Behind self slots) (stat : ℕ → JavaStation) (batch : List ℕ)
    (hbatch : batch.length ≤ intMax)
    (hcues : ∀ s ∈ slots.flatMap JavaSlot.members, (stat s).input.length ≤ intMax)
    (hblocking : Comes hdr select stationsMax (fun slot stat _ => slot.Blocking stat) slots stat
      batch) :
    (∃ stat' given, chain.run hdr select stationsMax self stat batch = some stat' ∧
      Distributes hdr slots stat stat' batch given) ↔
    Comes hdr select stationsMax
      (fun slot stat getList => slot.Fits stationsMax stat getList) slots stat batch := by
  have hrun : chain.run hdr select stationsMax self stat batch =
      conduct hdr select stationsMax slots stat batch := by
    rw [JavaChain.run, hbehind.following]
    rfl
  have hsub : (slots.flatMap JavaSlot.members).Sublist
      (chain.slots.flatMap JavaSlot.members) := by
    rcases hbehind with ⟨-, rfl⟩ | ⟨before, slot, hslots, -⟩
    · exact .refl _
    · rw [hslots, List.flatMap_append, List.flatMap_cons]
      exact (List.sublist_append_right _ _).trans (List.sublist_append_right _ _)
  have h0 : 0 ∉ slots.flatMap JavaSlot.members := fun h => chain.ne_zero (hsub.subset h)
  rw [hrun]
  constructor
  · rintro ⟨stat', given, hconduct, hdist⟩
    exact comes_fits_of_conduct (chain.nodup.sublist hsub) h0 hbatch hcues hconduct
      (hdist.comesOutEven h0)
  · intro hfits
    obtain ⟨stat', given, hconduct, hpass⟩ := conduct_spec (chain.nodup.sublist hsub) h0 hblocking
      hfits
    exact ⟨stat', given, hconduct, hpass.distributes⟩

/-! ### Groups of stations -/

/-- Blocking stations in use, all with the same selection. -/
def aliveStation (selectMode : SelectMode) : JavaStation where
  active := true
  selectMode := selectMode
  blockMode := .blocking
  prescale := 1
  cue := 10
  wasLast := false
  input := []
  eventsTry := 0
  prescale_pos := Nat.one_pos

/-- One group of parallel stations behind GRAND_CENTRAL. -/
def oneGroup (rest : List ℕ) (hnodup : (1 :: rest).Nodup) (hzero : 0 ∉ 1 :: rest) : JavaChain where
  slots := [.group 1 rest]
  nodup := by simpa [JavaSlot.members] using hnodup
  ne_zero := by simpa [JavaSlot.members] using hzero

/-- Equal-cue stations, of which the first has two events more than the others. -/
def unevenStation (s : ℕ) : JavaStation :=
  { aliveStation .equalcue with input := if s = 1 then [3, 4] else [] }

/-- The rise from no event to two is no problem. -/
theorem unevenStation_fits :
    JavaSlot.Fits 3 unevenStation [5, 6, 7] (.group 1 [2]) := by
  intro _ _
  have hactives : actives unevenStation [1, 2] = [1, 2] := rfl
  rw [hactives]
  refine ⟨by decide, by decide, fun s _ => ?_, ?_⟩
  · unfold unevenStation
    split <;> decide
  · unfold RisesFrom ComparesRight
    decide

/-- Three new events of GRAND_CENTRAL's and two stations, of which one has two events already, in a
system of three: the events are distributed. -/
theorem javaConductor_distributes_two :
    ∃ stat' given, (oneGroup [2] (by decide) (by decide)).run (fun _ => .init)
        (fun _ _ => true) 3 0 unevenStation [5, 6, 7] = some stat' ∧
      Distributes (fun _ => .init) [.group 1 [2]] unevenStation stat' [5, 6, 7] given := by
  refine (javaConductor_distributes_iff _ _ (oneGroup [2] (by decide) (by decide)) 3
    (.inl ⟨rfl, rfl⟩) _ _ (by decide) (fun s _ => ?_) (.inr ⟨?_, fun _ _ => trivial⟩)).mpr
    (.inr ⟨unevenStation_fits, fun _ _ => trivial⟩)
  · unfold unevenStation
    split <;> decide
  · intro _ s _
    rfl

/-- **A product that is no `int`.**  Of three members one has 1200000000 events in its input list,
and the others have none.  One event is left; but `1200000000 * 2` becomes a negative number, and
so the other lists are raised to the length of the last one. -/
example : (cueShares [0, 0, 1200000000] 1).map (fun f => [f 0, f 1, f 2]) =
    some [1831655766, 1831655766, 631655765] := by
  decide

/-- **More members than the system allows stations.**  In a system of three stations the
equal-cue group has four members, all active: GRAND_CENTRAL and the head of the group are the
only ones that were counted.  The conductor of GRAND_CENTRAL does not come through, and its
events are in no list. -/
theorem javaConductor_group_of_four :
    (oneGroup [2, 3, 4] (by decide) (by decide)).Behind 0 [.group 1 [2, 3, 4]] ∧
    (∀ s ∈ [1, 2, 3, 4], (aliveStation .equalcue).active ∧
      (aliveStation .equalcue).blockMode = .blocking) ∧
    (oneGroup [2, 3, 4] (by decide) (by decide)).run (fun _ => .init) (fun _ _ => true) 3 0
      (fun _ => aliveStation .equalcue) [5, 6, 7] = none ∧
    ¬ ∃ stat' given, (oneGroup [2, 3, 4] (by decide) (by decide)).run (fun _ => .init)
        (fun _ _ => true) 3 0 (fun _ => aliveStation .equalcue) [5, 6, 7] = some stat' ∧
      Distributes (fun _ => .init) [.group 1 [2, 3, 4]] (fun _ => aliveStation .equalcue) stat'
        [5, 6, 7] given := by
  have hrun : (oneGroup [2, 3, 4] (by decide) (by decide)).run (fun _ => .init) (fun _ _ => true)
      3 0 (fun _ => aliveStation .equalcue) [5, 6, 7] = none := rfl
  refine ⟨.inl ⟨rfl, rfl⟩, fun _ _ => ⟨rfl, rfl⟩, hrun, ?_⟩
  rintro ⟨_, _, h, -⟩
  cases hrun.symm.trans h

end EventTransfer
