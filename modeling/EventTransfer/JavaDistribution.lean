import EventTransfer.JavaConductor

/-!
# What the Java conductors do with a batch

`Hands` says of a part of a pass what the stations it stops at are given and what it leaves.
Parts that have no station in common come one after another (`Hands.trans`), so that it is
enough to say it of each kind of stop: a station that takes events (`hands_serve`), and a group
that events are dealt out to (`hands_handOut`).
-/

namespace EventTransfer

open GapSort WaterFill

/-! ### Parts of a pass -/

/-- What no conductor changes in a station. -/
structure JavaStation.SameConfig (r q : JavaStation) : Prop where
  active : q.active = r.active
  selectMode : q.selectMode = r.selectMode
  blockMode : q.blockMode = r.blockMode
  cue : q.cue = r.cue

/-- **A part of a pass**, which stops at the active ones of `members`: what they are `given`, and
what is `left` of the batch. -/
structure Hands (hdr : ℕ → EventHeader) (members : List ℕ) (stat stat' : ℕ → JavaStation)
    (batch left : List ℕ) (given : ℕ → List ℕ) : Prop where
  perm : ((actives stat members).flatMap given ++ left).Perm batch
  only : ∀ s, s ∉ actives stat members → given s = []
  sublist : ∀ s, (given s).Sublist batch
  left : left.Sublist batch
  input : ∀ s, (stat' s).input = llistWrite (isHigh hdr) (stat s).input (given s)
  config : ∀ s, (stat s).SameConfig (stat' s)
  marks : ∀ s, s ∉ members → (stat' s).wasLast = (stat s).wasLast

/-- Nonblocking stations do not get more than their cues have room for. -/
def KeepsCues (stat stat' : ℕ → JavaStation) (given : ℕ → List ℕ) : Prop :=
  ∀ s, (stat s).blockMode = .nonblocking → given s ≠ [] → (stat' s).input.length ≤ (stat s).cue

section Parts

variable {hdr : ℕ → EventHeader} {members members₁ members₂ : List ℕ}
  {stat stat₁ stat₂ : ℕ → JavaStation} {batch left left₁ left₂ : List ℕ}
  {given₁ given₂ : ℕ → List ℕ}

theorem actives_congr (h : ∀ s, (stat s).SameConfig (stat₁ s)) (members : List ℕ) :
    actives stat₁ members = actives stat members := by
  unfold actives
  simp only [(h _).active]

theorem actives_append (stat : ℕ → JavaStation) (xs ys : List ℕ) :
    actives stat (xs ++ ys) = actives stat xs ++ actives stat ys := List.filter_append ..

theorem actives_subset (stat : ℕ → JavaStation) (members : List ℕ) :
    actives stat members ⊆ members := List.filter_subset_self members

theorem flatMap_congr_nil {xs : List ℕ} {f g : ℕ → List ℕ} (h : ∀ s ∈ xs, g s = []) :
    (xs.flatMap fun s => f s ++ g s) = xs.flatMap f :=
  List.flatMap_congr fun s hs => by rw [h s hs, List.append_nil]

theorem flatMap_nil_congr {xs : List ℕ} {f g : ℕ → List ℕ} (h : ∀ s ∈ xs, f s = []) :
    (xs.flatMap fun s => f s ++ g s) = xs.flatMap g :=
  List.flatMap_congr fun s hs => by rw [h s hs, List.nil_append]

/-- Nothing happens. -/
theorem Hands.refl (hdr : ℕ → EventHeader) (members : List ℕ) (stat : ℕ → JavaStation)
    (batch : List ℕ) : Hands hdr members stat stat batch batch fun _ => [] := by
  refine ⟨?_, fun _ _ => rfl, fun _ => List.nil_sublist _, .refl _, fun _ => rfl,
    fun _ => ⟨rfl, rfl, rfl, rfl⟩, fun _ _ => rfl⟩
  rw [List.flatMap_eq_nil_iff.mpr fun _ _ => rfl, List.nil_append]

theorem KeepsCues.refl (stat : ℕ → JavaStation) : KeepsCues stat stat fun _ => [] :=
  fun _ _ hne => absurd rfl hne

/-- Of two parts that have no station in common, at most one gives anything to a station. -/
theorem Hands.disjoint (h₁ : Hands hdr members₁ stat stat₁ batch left₁ given₁)
    (h₂ : Hands hdr members₂ stat₁ stat₂ left₁ left₂ given₂) (hd : members₁.Disjoint members₂)
    (s : ℕ) : given₁ s = [] ∨ given₂ s = [] := by
  by_cases hs : s ∈ actives stat members₁
  · refine .inr (h₂.only s fun hs' => ?_)
    exact hd (actives_subset stat _ hs) (actives_subset stat₁ _ hs')
  · exact .inl (h₁.only s hs)

/-- **Two parts, one after the other.** -/
theorem Hands.trans (h₁ : Hands hdr members₁ stat stat₁ batch left₁ given₁)
    (h₂ : Hands hdr members₂ stat₁ stat₂ left₁ left₂ given₂) (hd : members₁.Disjoint members₂) :
    Hands hdr (members₁ ++ members₂) stat stat₂ batch left₂ fun s => given₁ s ++ given₂ s := by
  have hone := h₁.disjoint h₂ hd
  have hactives : actives stat₁ members₂ = actives stat members₂ := actives_congr h₁.config _
  have hfirst : ∀ s ∈ actives stat members₁, given₂ s = [] := fun s hs =>
    h₂.only s fun hs' => hd (actives_subset _ _ hs) (actives_subset _ _ hs')
  have hsecond : ∀ s ∈ actives stat members₂, given₁ s = [] := fun s hs =>
    h₁.only s fun hs' => hd (actives_subset _ _ hs') (actives_subset _ _ hs)
  refine ⟨?_, fun s hs => ?_, fun s => ?_, h₂.left.trans h₁.left, fun s => ?_, fun s => ?_,
    fun s hs => ?_⟩
  · rw [actives_append, List.flatMap_append, flatMap_congr_nil hfirst, flatMap_nil_congr hsecond,
      List.append_assoc]
    have hrest := h₂.perm
    rw [hactives] at hrest
    exact (hrest.append_left _).trans h₁.perm
  · rw [actives_append, List.mem_append, not_or] at hs
    rw [h₁.only s hs.1, h₂.only s (hactives ▸ hs.2), List.append_nil]
  · rcases hone s with h | h <;> rw [h]
    · exact (h₂.sublist s).trans h₁.left
    · rw [List.append_nil]
      exact h₁.sublist s
  · rw [h₂.input, h₁.input]
    rcases hone s with h | h <;> rw [h]
    · rfl
    · rw [List.append_nil, llistWrite_nil]
  · obtain ⟨ha, hm, hb, hc⟩ := h₁.config s
    obtain ⟨ha', hm', hb', hc'⟩ := h₂.config s
    exact ⟨ha'.trans ha, hm'.trans hm, hb'.trans hb, hc'.trans hc⟩
  · rw [List.mem_append, not_or] at hs
    exact (h₂.marks s hs.2).trans (h₁.marks s hs.1)

theorem KeepsCues.trans (h₁ : Hands hdr members₁ stat stat₁ batch left₁ given₁)
    (h₂ : Hands hdr members₂ stat₁ stat₂ left₁ left₂ given₂) (hd : members₁.Disjoint members₂)
    (hc₁ : KeepsCues stat stat₁ given₁) (hc₂ : KeepsCues stat₁ stat₂ given₂) :
    KeepsCues stat stat₂ fun s => given₁ s ++ given₂ s := by
  intro s hs hne
  dsimp only at hne
  rcases h₁.disjoint h₂ hd s with h | h
  · rw [h, List.nil_append] at hne
    exact (hc₂ s ((h₁.config s).blockMode.trans hs) hne).trans (h₁.config s).cue.le
  · rw [h, List.append_nil] at hne
    rw [h₂.input, h, llistWrite_nil]
    exact hc₁ s hs hne

end Parts

/-! ### A station that takes events -/

/-- What is taken from a list of events and what is left. -/
structure Splits (batch taken left : List ℕ) : Prop where
  perm : (taken ++ left).Perm batch
  taken : taken.Sublist batch
  left : left.Sublist batch

theorem splits_at (n : ℕ) (batch : List ℕ) : Splits batch (batch.take n) (batch.drop n) :=
  ⟨by rw [List.take_append_drop], List.take_sublist n batch, List.drop_sublist n batch⟩

theorem splits_nothing (batch : List ℕ) : Splits batch [] batch :=
  ⟨.refl _, List.nil_sublist _, .refl _⟩

theorem splits_prescaled (p : ℕ → Bool) (prescale listTry : ℕ) (batch : List ℕ) :
    Splits batch (prescaled p prescale listTry batch).1 (prescaled p prescale listTry batch).2.1 := by
  induction batch generalizing listTry with
  | nil => exact splits_nothing []
  | cons e batch ih =>
      unfold prescaled
      split
      · obtain ⟨hperm, htaken, hleft⟩ := ih (listTry + 1)
        dsimp only
        split
        · exact ⟨hperm.cons e, htaken.cons_cons e, hleft.cons e⟩
        · exact ⟨List.perm_middle.trans (hperm.cons e), htaken.cons e, hleft.cons_cons e⟩
      · obtain ⟨hperm, htaken, hleft⟩ := ih listTry
        exact ⟨List.perm_middle.trans (hperm.cons e), htaken.cons e, hleft.cons_cons e⟩

theorem splits_takeWhere (p : ℕ → Bool) (n : ℕ) (batch : List ℕ) :
    Splits batch (takeWhere p n batch).1 (takeWhere p n batch).2 :=
  ⟨takeWhere_perm, takeWhere_fst_sublist, takeWhere_snd_sublist⟩

theorem JavaStation.splits_choose (stat : JavaStation) (p : ℕ → Bool) (batch : List ℕ) :
    Splits batch (stat.choose p batch).1 (stat.choose p batch).2.1 := by
  unfold choose
  split
  · exact splits_at _ batch
  · split
    · exact splits_at _ batch
    · exact splits_nothing batch
  · exact splits_prescaled p _ _ batch
  · split
    · exact splits_takeWhere p _ batch
    · exact splits_nothing batch

/-- A nonblocking station takes no more than its cue has room for. -/
theorem JavaStation.length_choose_le (stat : JavaStation) (p : ℕ → Bool) (batch : List ℕ)
    (h : stat.blockMode = .nonblocking) (hne : (stat.choose p batch).1 ≠ []) :
    stat.input.length + (stat.choose p batch).1.length ≤ stat.cue := by
  revert hne
  unfold choose
  split
  case h_1 hb _ => exact fun _ => absurd (h.symm.trans hb) nofun
  case h_2 =>
    split
    · intro _
      dsimp only
      rw [List.length_take]
      split <;> omega
    · exact fun hne => absurd rfl hne
  case h_3 hb _ => exact fun _ => absurd (h.symm.trans hb) nofun
  case h_4 =>
    split
    · intro _
      have := length_takeWhere_le p (stat.cue - stat.input.length) batch
      dsimp only
      omega
    · exact fun hne => absurd rfl hne

section Serve

variable (hdr : ℕ → EventHeader) (select : ℕ → ℕ → Bool) {s : ℕ} {stat : ℕ → JavaStation}

/-- **One station** that is active. -/
theorem hands_serve (hs : (stat s).active) (batch : List ℕ) :
    Hands hdr [s] stat (serve hdr select s stat batch).1 batch (serve hdr select s stat batch).2
      (Function.update (fun _ => []) s ((stat s).choose (select s) batch).1) := by
  obtain ⟨hperm, htaken, hleft⟩ := (stat s).splits_choose (select s) batch
  have hactives : actives stat [s] = [s] := by simp [actives, hs]
  refine ⟨?_, fun r hr => ?_, fun r => ?_, hleft, fun r => ?_, fun r => ?_, fun r hr => ?_⟩
  · rw [hactives]
    simpa [serve] using hperm
  · rw [hactives, List.mem_singleton] at hr
    exact Function.update_of_ne hr ..
  · rcases eq_or_ne r s with rfl | hr
    · rw [Function.update_self]
      exact htaken
    · rw [Function.update_of_ne hr]
      exact List.nil_sublist _
  · rcases eq_or_ne r s with rfl | hr
    · simp [serve, JavaStation.put]
    · simp [serve, hr]
  · rcases eq_or_ne r s with rfl | hr
    · simp only [serve, Function.update_self]
      exact ⟨rfl, rfl, rfl, rfl⟩
    · simp only [serve, Function.update_of_ne hr]
      exact ⟨rfl, rfl, rfl, rfl⟩
  · rw [List.mem_singleton] at hr
    simp [serve, hr]

theorem keepsCues_serve (s : ℕ) (stat : ℕ → JavaStation) (batch : List ℕ) :
    KeepsCues stat (serve hdr select s stat batch).1
      (Function.update (fun _ => []) s ((stat s).choose (select s) batch).1) := by
  intro r hr hne
  rcases eq_or_ne r s with rfl | hrs
  · rw [Function.update_self] at hne
    have hlen := (stat r).length_choose_le (select r) batch hr hne
    simpa [serve, JavaStation.put, length_llistWrite] using hlen
  · rw [Function.update_of_ne hrs] at hne
    exact absurd rfl hne

/-- **Stations one after another.** -/
theorem hands_serveAll {members : List ℕ} (hnodup : members.Nodup) (stat : ℕ → JavaStation)
    (batch : List ℕ) : ∃ given,
      Hands hdr members stat (serveAll hdr select members stat batch).1 batch
        (serveAll hdr select members stat batch).2 given ∧
      KeepsCues stat (serveAll hdr select members stat batch).1 given := by
  induction members generalizing stat batch with
  | nil => exact ⟨_, .refl hdr [] stat batch, .refl stat⟩
  | cons s rest ih =>
      obtain ⟨hs, hrest⟩ := List.nodup_cons.mp hnodup
      have hd : [s].Disjoint rest := by simpa using hs
      unfold serveAll
      split
      case isTrue hactive =>
        obtain ⟨given, hgiven, hcues⟩ := ih hrest (serve hdr select s stat batch).1
          (serve hdr select s stat batch).2
        have hone := hands_serve hdr select hactive.2 batch
        exact ⟨_, hone.trans hgiven hd,
          .trans hone hgiven hd (keepsCues_serve hdr select s stat batch) hcues⟩
      case isFalse hnot =>
        obtain ⟨given, hgiven, hcues⟩ := ih hrest stat batch
        have hskip := Hands.refl hdr [s] stat batch
        exact ⟨_, hskip.trans hgiven hd, .trans hskip hgiven hd (.refl stat) hcues⟩

end Serve

/-! ### Events that are handed out -/

/-- What a station gets of events that are handed out. -/
def segment : List (ℕ × ℕ) → List ℕ → ℕ → List ℕ
  | [], _, _ => []
  | (r, n) :: rest, events, s =>
      if s = r then events.take n else segment rest (events.drop n) s

section HandOut

variable {order : List ℕ} {pieces : List (List ℕ)}

theorem segment_of_notMem {zs : List (ℕ × ℕ)} {s : ℕ} (h : s ∉ zs.map Prod.fst)
    (events : List ℕ) : segment zs events s = [] := by
  induction zs generalizing events with
  | nil => rfl
  | cons z zs ih =>
      rw [List.map_cons, List.mem_cons, not_or] at h
      unfold segment
      rw [if_neg h.1]
      exact ih h.2 _

/-- Pieces that are put together are handed out again. -/
theorem segment_flatten (hnodup : order.Nodup) (hlen : order.length = pieces.length) :
    order.map (segment (order.zip (pieces.map List.length)) pieces.flatten) = pieces := by
  induction order generalizing pieces with
  | nil => exact (List.eq_nil_of_length_eq_zero hlen.symm).symm
  | cons s order ih =>
      cases pieces with
      | nil => cases hlen
      | cons piece pieces =>
          obtain ⟨hs, hnodup⟩ := List.nodup_cons.mp hnodup
          have hrest := ih hnodup (Nat.succ.inj hlen)
          simp only [List.map_cons, List.zip_cons_cons, List.flatten_cons]
          refine congrArg₂ List.cons ?_ ?_
          · unfold segment
            rw [if_pos rfl, List.take_left]
          · conv_rhs => rw [← hrest]
            refine List.map_congr_left fun r hr => ?_
            have hrs : r ≠ s := fun h => hs (h ▸ hr)
            conv_lhs => unfold segment
            rw [if_neg hrs, List.drop_left]

/-- **Stations get their segments**, and nothing else changes. -/
theorem handOut_eq (hdr : ℕ → EventHeader) {zs : List (ℕ × ℕ)} (hnodup : (zs.map Prod.fst).Nodup)
    (events : List ℕ) (stat : ℕ → JavaStation) (s : ℕ) :
    (handOut hdr zs events stat s).input =
        llistWrite (isHigh hdr) (stat s).input (segment zs events s) ∧
      (stat s).SameConfig (handOut hdr zs events stat s) ∧
      (handOut hdr zs events stat s).wasLast = (stat s).wasLast := by
  induction zs generalizing events stat with
  | nil => exact ⟨rfl, ⟨rfl, rfl, rfl, rfl⟩, rfl⟩
  | cons z zs ih =>
      obtain ⟨r, n⟩ := z
      rw [List.map_cons] at hnodup
      obtain ⟨hr, hnodup⟩ := List.nodup_cons.mp hnodup
      have hrest := ih hnodup (events.drop n)
      unfold handOut segment
      split
      case isTrue hn =>
        obtain rfl : n = 0 := by omega
        have h := hrest stat
        rw [List.drop_zero] at h
        split
        case isTrue hs =>
          rw [segment_of_notMem (hs ▸ hr)] at h
          rw [List.take_zero]
          exact h
        case isFalse => exact h
      case isFalse hn =>
        obtain ⟨hinput, hconfig, hlast⟩ := hrest (Function.update stat r
          { (stat r).put hdr (events.take n) with eventsTry := (stat r).eventsTry + n })
        split
        case isTrue hs =>
          subst hs
          rw [segment_of_notMem hr, Function.update_self] at hinput
          rw [Function.update_self] at hconfig hlast
          exact ⟨hinput, ⟨hconfig.1, hconfig.2, hconfig.3, hconfig.4⟩, hlast⟩
        case isFalse hs =>
          rw [Function.update_of_ne hs] at hinput hconfig hlast
          exact ⟨hinput, hconfig, hlast⟩

variable {hdr : ℕ → EventHeader} {members batch : List ℕ} {stat stat' : ℕ → JavaStation}

/-- **Everything is handed out** to the active members of a group, in pieces. -/
theorem hands_pieces (horder : order.Perm (actives stat members)) (hnodup : order.Nodup)
    (hlen : order.length = pieces.length) (hperm : pieces.flatten.Perm batch)
    (hsub : ∀ piece ∈ pieces, piece.Sublist batch)
    (hinput : ∀ s, (stat' s).input = llistWrite (isHigh hdr) (stat s).input
      (segment (order.zip (pieces.map List.length)) pieces.flatten s))
    (hconfig : ∀ s, (stat s).SameConfig (stat' s))
    (hmarks : ∀ s, s ∉ members → (stat' s).wasLast = (stat s).wasLast) :
    Hands hdr members stat stat' batch []
      (segment (order.zip (pieces.map List.length)) pieces.flatten) := by
  have hpieces := segment_flatten hnodup hlen
  have hfst : (order.zip (pieces.map List.length)).map Prod.fst = order :=
    List.map_fst_zip (by rw [List.length_map, hlen])
  have hnone : ∀ s, s ∉ order →
      segment (order.zip (pieces.map List.length)) pieces.flatten s = [] :=
    fun s hs => segment_of_notMem (hfst.symm ▸ hs) _
  refine ⟨?_, fun s hs => hnone s fun h => hs (horder.subset h), fun s => ?_, List.nil_sublist _,
    hinput, hconfig, hmarks⟩
  · rw [List.append_nil]
    refine (horder.symm.flatMap_right _).trans ?_
    rw [List.flatMap_def, hpieces]
    exact hperm
  · by_cases hs : s ∈ order
    · have hmem := List.mem_map_of_mem
        (f := segment (order.zip (pieces.map List.length)) pieces.flatten) hs
      rw [hpieces] at hmem
      exact hsub _ hmem
    · rw [hnone s hs]
      exact List.nil_sublist _

end HandOut

/-! ### Round-robin -/

section EveryNth

variable {n i : ℕ} {xs : List ℕ}

/-- Rounds in which number `i` of `n` gets an event. -/
theorem lt_roundShare_iff (hi : i < n) {j len : ℕ} :
    j < roundShare n len i ↔ i + j * n < len := by
  have hdiv := Nat.div_add_mod len n
  have hmod := Nat.mod_lt len (Nat.zero_lt_of_lt hi)
  unfold roundShare
  rcases Nat.lt_trichotomy j (len / n) with hj | rfl | hj
  · have hmul : (j + 1) * n ≤ len / n * n := Nat.mul_le_mul_right n hj
    have hcomm := Nat.mul_comm n (len / n)
    rw [Nat.add_mul, Nat.one_mul] at hmul
    refine iff_of_true (by omega) (by omega)
  · have hcomm := Nat.mul_comm n (len / n)
    split
    · exact iff_of_true (by omega) (by omega)
    · exact iff_of_false (by omega) (by omega)
  · have hmul : (len / n + 1) * n ≤ j * n := Nat.mul_le_mul_right n hj
    have hcomm := Nat.mul_comm n (len / n)
    rw [Nat.add_mul, Nat.one_mul] at hmul
    refine iff_of_false ?_ (by omega)
    split <;> omega

/-- The places of the events that number `i` of `n` gets. -/
theorem map_range_roundShare (hi : i < n) (len : ℕ) :
    (List.range (roundShare n len i)).map (fun j => i + j * n) =
      (List.range len).filter fun k => k % n = i := by
  have hn := Nat.zero_lt_of_lt hi
  have hinj : Function.Injective fun j => i + j * n := fun a b hab =>
    Nat.eq_of_mul_eq_mul_right hn (Nat.add_left_cancel hab)
  have hperm : ((List.range (roundShare n len i)).map fun j => i + j * n).Perm
      ((List.range len).filter fun k => k % n = i) := by
    refine (List.perm_ext_iff_of_nodup (List.nodup_range.map hinj)
      (List.nodup_range.filter _)).mpr fun k => ?_
    rw [List.mem_map, List.mem_filter, List.mem_range, decide_eq_true_eq]
    constructor
    · rintro ⟨j, hj, rfl⟩
      rw [List.mem_range, lt_roundShare_iff hi] at hj
      exact ⟨hj, by rw [Nat.add_mul_mod_self_right, Nat.mod_eq_of_lt hi]⟩
    · rintro ⟨hk, hmod⟩
      have hdiv := Nat.mod_add_div k n
      rw [hmod, Nat.mul_comm] at hdiv
      refine ⟨k / n, ?_, hdiv⟩
      rw [List.mem_range, lt_roundShare_iff hi, hdiv]
      exact hk
  refine hperm.eq_of_pairwise (fun a b _ _ (hab : a < b) (hba : b < a) => ?_) ?_ ?_
  · exact absurd hab hba.asymm
  · refine List.pairwise_lt_range.map _ fun a b hab => ?_
    exact Nat.add_lt_add_left (Nat.mul_lt_mul_of_pos_right hab hn) i
  · exact List.pairwise_lt_range.filter _

theorem everyNth_eq_map (n i : ℕ) (xs : List ℕ) :
    everyNth n i xs = ((List.range xs.length).filter fun k => k % n = i).map (xs.getD · 0) := by
  unfold everyNth
  rw [← List.filterMap_eq_map]
  refine List.filterMap_congr fun k hk => ?_
  have hlt : k < xs.length := List.mem_range.mp (List.mem_filter.mp hk).1
  simp [List.getD_eq_getElem?_getD, hlt]

/-- The code's way to collect them. -/
theorem everyNth_eq_filterMap (hi : i < n) (xs : List ℕ) :
    (List.range (roundShare n xs.length i)).filterMap (fun j => xs[i + j * n]?) =
      everyNth n i xs := by
  unfold everyNth
  rw [← map_range_roundShare hi, List.filterMap_map]
  rfl

theorem length_everyNth (hi : i < n) (xs : List ℕ) :
    (everyNth n i xs).length = roundShare n xs.length i := by
  rw [everyNth_eq_map, List.length_map, ← map_range_roundShare hi, List.length_map,
    List.length_range]

theorem map_getD_range (xs : List ℕ) : (List.range xs.length).map (xs.getD · 0) = xs := by
  refine List.ext_getElem (by simp) fun k _ hk => ?_
  simp [hk]

theorem everyNth_sublist (n i : ℕ) (xs : List ℕ) : (everyNth n i xs).Sublist xs := by
  rw [everyNth_eq_map]
  conv_rhs => rw [← map_getD_range xs]
  exact List.filter_sublist.map _

/-- Elements sorted into drawers by their numbers are all there. -/
theorem perm_flatMap_filter (f : ℕ → ℕ) (n : ℕ) (xs : List ℕ) :
    ((List.range n).flatMap fun i => xs.filter fun x => f x = i).Perm
      (xs.filter fun x => f x < n) := by
  induction n with
  | zero => simp
  | succ n ih =>
      have hsplit := List.filter_append_perm (fun x => f x < n) (xs.filter fun x => f x < n + 1)
      rw [List.filter_filter, List.filter_filter] at hsplit
      rw [List.range_succ, List.flatMap_append, List.flatMap_singleton]
      refine (ih.append_right _).trans (.trans ?_ hsplit)
      refine List.Perm.append (.of_eq ?_) (.of_eq ?_)
      · refine List.filter_congr fun x _ => ?_
        rw [← Bool.decide_and, decide_eq_decide]
        omega
      · refine List.filter_congr fun x _ => ?_
        rw [← decide_not, ← Bool.decide_and, decide_eq_decide]
        omega

/-- **Every event is dealt out once.** -/
theorem flatMap_everyNth_perm (hn : 0 < n) (xs : List ℕ) :
    ((List.range n).flatMap fun i => everyNth n i xs).Perm xs := by
  have hall : (List.range xs.length).filter (fun k => k % n < n) = List.range xs.length :=
    List.filter_eq_self.mpr fun k _ => decide_eq_true (Nat.mod_lt k hn)
  have hperm := perm_flatMap_filter (· % n) n (List.range xs.length)
  rw [hall] at hperm
  simp only [everyNth_eq_map]
  rw [← List.map_flatMap]
  conv_rhs => rw [← map_getD_range xs]
  exact hperm.map _

end EveryNth

section RoundRobin

variable {hdr : ℕ → EventHeader} {stat : ℕ → JavaStation} {members batch : List ℕ}

/-- Nobody is marked: the search goes on as before. -/
theorem findStart_unmarked {xs : List ℕ} (h : ∀ s ∈ xs, (stat s).wasLast = false)
    (r : Option ℕ) : findStart stat xs (r, false) = (r, false) := by
  induction xs with
  | nil => rfl
  | cons s xs ih =>
      rw [List.forall_mem_cons] at h
      rw [findStart]
      simp only [Bool.false_eq_true, and_false, if_false, h.1]
      exact ih h.2

/-- Nobody else is marked: the first active station is the one looked for. -/
theorem findStart_looking {xs : List ℕ} (h : ∀ s ∈ xs, (stat s).wasLast = false) :
    (findStart stat xs (none, true)).1 = (actives stat xs).head? := by
  induction xs with
  | nil => rfl
  | cons s xs ih =>
      rw [List.forall_mem_cons] at h
      rw [findStart, actives, List.filter_cons]
      by_cases hs : (stat s).active = true
      · simp only [hs, and_self, if_true, h.1, Bool.false_eq_true, if_false]
        rw [findStart_unmarked h.2]
        rfl
      · simp only [hs, h.1]
        exact ih h.2

theorem findStart_append (xs ys : List ℕ) (r : Option ℕ × Bool) :
    findStart stat (xs ++ ys) r = findStart stat ys (findStart stat xs r) := by
  induction xs generalizing r with
  | nil => rfl
  | cons s xs ih => exact ih _

/-- A list that is gone through from a member on, and on from its beginning. -/
theorem rotate_from {before after : List ℕ} {a : ℕ} (ha : a ∉ before) :
    (before ++ a :: after).dropWhile (· ≠ a) ++ (before ++ a :: after).takeWhile (· ≠ a) =
      a :: after ++ before := by
  have hne : ∀ x ∈ before, decide (x ≠ a) = true := fun x hx =>
    decide_eq_true fun h => ha (h ▸ hx)
  rw [List.dropWhile_append_of_pos hne, List.takeWhile_append_of_pos hne,
    List.dropWhile_cons_of_neg (by simp), List.takeWhile_cons_of_neg (by simp), List.append_nil]

/-- The first active member of a list. -/
theorem exists_head_actives {xs : List ℕ} (h : actives stat xs ≠ []) :
    ∃ before a after, xs = before ++ a :: after ∧ actives stat before = [] ∧
      (stat a).active = true ∧ (actives stat xs).head? = some a := by
  induction xs with
  | nil => exact absurd rfl h
  | cons s xs ih =>
      by_cases hs : (stat s).active = true
      · exact ⟨[], s, xs, rfl, rfl, hs, by simp [actives, hs]⟩
      · have hskip : actives stat (s :: xs) = actives stat xs := by simp [actives, hs]
        obtain ⟨before, a, after, hxs, hbefore, ha, hhead⟩ := ih (hskip ▸ h)
        refine ⟨s :: before, a, after, by rw [hxs]; rfl, ?_, ha, hskip ▸ hhead⟩
        rw [← hbefore]
        simp [actives, hs]

/-- Starting with the first active member, the active members are gone through in order. -/
theorem dealOrder_first (h : actives stat members ≠ [])
    (hstart : startStation stat members = (actives stat members).headD 0) (hnodup : members.Nodup) :
    dealOrder stat members = actives stat members := by
  obtain ⟨before, a, after, hmembers, hbefore, -, hhead⟩ := exists_head_actives h
  have ha : a ∉ before := by
    rw [hmembers, List.nodup_middle, List.nodup_cons] at hnodup
    exact fun hmem => hnodup.1 (List.mem_append_left _ hmem)
  have hstart' : startStation stat members = a := by
    rw [hstart, List.headD_eq_head?_getD, hhead]
    rfl
  unfold dealOrder
  dsimp only
  rw [hstart', hmembers, rotate_from ha, actives_append, hbefore, List.append_nil, actives_append,
    hbefore]
  rfl

theorem dealOrder_isRotated (stat : ℕ → JavaStation) (members : List ℕ) :
    (dealOrder stat members).IsRotated (actives stat members) := by
  unfold dealOrder
  dsimp only
  rw [actives_append]
  refine List.isRotated_append.trans ?_
  rw [← actives_append, List.takeWhile_append_dropWhile]

/-- **The order is the one asked for.** -/
theorem dealsInTurn_dealOrder (h : actives stat members ≠ []) (hnodup : members.Nodup) :
    DealsInTurn stat members (dealOrder stat members) := by
  refine ⟨dealOrder_isRotated stat members, fun before s after hmembers hmark hothers => ?_,
    fun hnone => ?_⟩
  · have hbefore : ∀ r ∈ before, (stat r).wasLast = false := fun r hr =>
      hothers r (List.mem_append_left _ hr)
    have hafter : ∀ r ∈ after, (stat r).wasLast = false := fun r hr =>
      hothers r (List.mem_append_right _ hr)
    have hfind : (findStart stat members (none, false)).1 = (actives stat after).head? := by
      rw [hmembers, findStart_append, findStart_unmarked hbefore, findStart]
      simp only [Bool.false_eq_true, and_false, if_false, hmark, if_true]
      exact findStart_looking hafter
    by_cases hnone : actives stat after = []
    · -- nobody is active behind the marked member
      rw [dealOrder_first h (by rw [startStation, hfind, hnone]; rfl) hnodup, hmembers,
        actives_append, actives_append, actives_append, hnone, List.nil_append]
      congr 1
      have hcons := actives_append stat [s] after
      rwa [hnone, List.append_nil] at hcons
    · obtain ⟨skipped, a, rest, rfl, hskipped, -, hhead⟩ := exists_head_actives hnone
      have hstart : startStation stat members = a := by
        rw [startStation, hfind, hhead]
        rfl
      have hsplit : members = (before ++ s :: skipped) ++ a :: rest := by
        rw [hmembers]
        simp
      have ha : a ∉ before ++ s :: skipped := by
        rw [hsplit, List.nodup_middle, List.nodup_cons] at hnodup
        exact fun hmem => hnodup.1 (List.mem_append_left _ hmem)
      unfold dealOrder
      dsimp only
      rw [hstart, hsplit, rotate_from ha]
      have hcons := actives_append stat [s] skipped
      rw [hskipped, List.append_nil] at hcons
      simp only [actives_append, hskipped, List.nil_append, List.append_assoc]
      rw [← hcons]
      rfl
  · refine dealOrder_first h ?_ hnodup
    rw [startStation, findStart_unmarked hnone]
    rfl

theorem lastEventIndex_eq {n len : ℕ} (hn : 0 < n) (hlen : 0 < len) :
    lastEventIndex n len = (len - 1) % n := by
  have hdiv := Nat.div_add_mod len n
  have hmod := Nat.mod_lt len hn
  unfold lastEventIndex
  split
  case isTrue hzero =>
    obtain ⟨q, hq⟩ : ∃ q, len / n = q + 1 := by
      refine Nat.exists_eq_succ_of_ne_zero fun h0 => ?_
      rw [h0, hzero] at hdiv
      omega
    have hlen' : len - 1 = n - 1 + n * q := by
      rw [hq, hzero, Nat.mul_add, Nat.mul_one] at hdiv
      omega
    rw [hlen', Nat.add_mul_mod_self_left, Nat.mod_eq_of_lt (by omega)]
  case isFalse hnz =>
    have hlen' : len - 1 = (len % n - 1) + n * (len / n) := by omega
    rw [hlen', Nat.add_mul_mod_self_left]
    exact (Nat.mod_eq_of_lt (by omega)).symm

/-- The pieces of a round-robin deal are put together by `rearrange`. -/
theorem rearrange_eq (n : ℕ) (batch : List ℕ) :
    rearrange n batch = ((List.range n).map fun i => everyNth n i batch).flatten := by
  rw [rearrange, List.flatMap_def]
  congr 1
  refine List.map_congr_left fun i hi => ?_
  exact everyNth_eq_filterMap (List.mem_range.mp hi) batch

theorem map_roundShare_eq (n : ℕ) (batch : List ℕ) :
    (List.range n).map (roundShare n batch.length) =
      ((List.range n).map fun i => everyNth n i batch).map List.length := by
  rw [List.map_map]
  refine List.map_congr_left fun i hi => ?_
  exact (length_everyNth (List.mem_range.mp hi) batch).symm

/-- **A round-robin group** is dealt everything. -/
theorem hands_dealRoundRobin (hdr : ℕ → EventHeader) (hne : actives stat members ≠ [])
    (hnodup : members.Nodup) (hbatch : batch ≠ []) : ∃ given,
      Hands hdr members stat (dealRoundRobin hdr members stat batch) batch [] given ∧
      DealtInTurn stat (dealRoundRobin hdr members stat batch) members batch given := by
  have horder := dealsInTurn_dealOrder hne hnodup
  unfold dealRoundRobin
  generalize dealOrder stat members = order at horder ⊢
  have hperm : order.Perm (actives stat members) := horder.rotated.perm
  have hnodup' : order.Nodup := (hperm.nodup_iff).mpr (hnodup.filter _)
  have hpos : 0 < order.length := by
    rw [hperm.length_eq]
    exact List.length_pos_iff.mpr hne
  have hlen := List.length_pos_iff.mpr hbatch
  set n := order.length with hn
  set pieces := (List.range n).map fun i => everyNth n i batch with hpieces
  have hplen : order.length = pieces.length := by simp [hpieces, hn]
  -- the marks are cleared, and the member that gets the last event is marked
  set cleared : ℕ → JavaStation := fun s =>
    if s ∈ members then { stat s with wasLast := false } else stat s with hcleared
  have hlast : lastEventIndex n batch.length < order.length := by
    rw [lastEventIndex_eq hpos hlen]
    exact Nat.mod_lt _ hpos
  have hfst : (order.zip (pieces.map List.length)).map Prod.fst = order :=
    List.map_fst_zip (by rw [List.length_map, hplen])
  have hout := handOut_eq hdr (by rwa [hfst]) pieces.flatten cleared
  have hclear : ∀ s, (cleared s).input = (stat s).input ∧ (stat s).SameConfig (cleared s) ∧
      (cleared s).wasLast = if s ∈ members then false else (stat s).wasLast := by
    intro s
    simp only [hcleared]
    split
    · exact ⟨rfl, ⟨rfl, rfl, rfl, rfl⟩, rfl⟩
    · exact ⟨rfl, ⟨rfl, rfl, rfl, rfl⟩, rfl⟩
  have hout : ∀ s, (handOut hdr (order.zip (pieces.map List.length)) pieces.flatten cleared s).input =
        llistWrite (isHigh hdr) (stat s).input
          (segment (order.zip (pieces.map List.length)) pieces.flatten s) ∧
      (stat s).SameConfig (handOut hdr (order.zip (pieces.map List.length)) pieces.flatten cleared s) ∧
      (handOut hdr (order.zip (pieces.map List.length)) pieces.flatten cleared s).wasLast =
        if s ∈ members then false else (stat s).wasLast := by
    intro s
    obtain ⟨hinput, ⟨ha, hm, hb, hc⟩, hmark⟩ := hout s
    obtain ⟨hinput', ⟨ha', hm', hb', hc'⟩, hmark'⟩ := hclear s
    exact ⟨hinput.trans (by rw [hinput']),
      ⟨ha.trans ha', hm.trans hm', hb.trans hb', hc.trans hc'⟩, hmark.trans hmark'⟩
  dsimp only
  rw [map_roundShare_eq, rearrange_eq, ← hpieces, List.getElem?_eq_getElem hlast]
  dsimp only
  generalize handOut hdr (order.zip (pieces.map List.length)) pieces.flatten cleared = out at hout
  set last := order[lastEventIndex n batch.length] with hlastdef
  have hmember : last ∈ members :=
    actives_subset stat members (hperm.subset (List.getElem_mem hlast))
  have hmarked : ∀ s, (Function.update out last { out last with wasLast := true } s).input =
        (out s).input ∧
      (out s).SameConfig (Function.update out last { out last with wasLast := true } s) ∧
      (Function.update out last { out last with wasLast := true } s).wasLast =
        if s = last then true else (out s).wasLast := by
    intro s
    rcases eq_or_ne s last with rfl | hs
    · rw [Function.update_self, if_pos rfl]
      exact ⟨rfl, ⟨rfl, rfl, rfl, rfl⟩, rfl⟩
    · rw [Function.update_of_ne hs, if_neg hs]
      exact ⟨rfl, ⟨rfl, rfl, rfl, rfl⟩, rfl⟩
  have hgiven := segment_flatten hnodup' hplen
  refine ⟨_, hands_pieces hperm hnodup' hplen ?_ ?_ (fun s => ?_) (fun s => ?_) fun s hs => ?_,
    order, horder, fun i s hi => ?_, fun _ s hs => ?_⟩
  · rw [hpieces, ← List.flatMap_def]
    exact flatMap_everyNth_perm hpos batch
  · intro piece hpiece
    obtain ⟨i, -, rfl⟩ := List.mem_map.mp hpiece
    exact everyNth_sublist n i batch
  · exact (hmarked s).1.trans (hout s).1
  · obtain ⟨ha, hm, hb, hc⟩ := (hmarked s).2.1
    obtain ⟨ha', hm', hb', hc'⟩ := (hout s).2.1
    exact ⟨ha.trans ha', hm.trans hm', hb.trans hb', hc.trans hc'⟩
  · rw [(hmarked s).2.2, (hout s).2.2, if_neg hs, if_neg]
    exact fun h => hs (h ▸ hmember)
  · have hget := congrArg (·[i]?) hgiven
    simp only [List.getElem?_map, hi, Option.map_some] at hget
    obtain ⟨hin, -⟩ := List.getElem?_eq_some_iff.mp hi
    rw [hpieces, List.getElem?_map, List.getElem?_range hin, Option.map_some] at hget
    exact Option.some.inj hget
  · rw [(hmarked s).2.2, (hout s).2.2, if_pos hs, ← lastEventIndex_eq hpos hlen,
      List.getElem?_eq_getElem hlast, Option.some_inj]
    by_cases h : s = last
    · rw [if_pos h]
      exact iff_of_true rfl h.symm
    · rw [if_neg h]
      exact iff_of_false nofun fun h' => h h'.symm

end RoundRobin

end EventTransfer
