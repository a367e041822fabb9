import EventTransfer.Conductor

/-!
# Equal-cue groups

A conductor shares out the events that are left among the active members of an equal-cue group,
so that their input lists end up as even as they can.  The loop that does it raises the shortest
lists to the length of the next one, round by round, and spreads what does not reach that far.

To see whether the events reach, it multiplies the rise by the number of lists to be raised; and
the product of a rise that is far out of reach may be more than an `int` has room for.  Where it
is not (`RisesWithin intMax`), and only there, the events are shared out as they should
(`equalcueWrites_shares_iff`).
-/

namespace EventTransfer

open GapSort WaterFill Finset

/-! ### The loop -/

section DoleOut

variable {sorted : ℕ → ℕ × ℕ} {n eventsLeft : ℕ}

theorem intMul_eq_some {a b c : ℕ} : intMul a b = some c ↔ a * b ≤ intMax ∧ a * b = c := by
  unfold intMul
  split
  case isTrue h => simp [h]
  case isFalse h => simp [h]

theorem addFirst_apply (h : PlacesDiffer sorted n) (e : ℕ → ℕ) {k : ℕ} (hk : k ≤ n)
    (numEvents : ℕ → ℕ) {i : ℕ} (hi : i ∈ Icc 1 n) :
    addFirst sorted e k numEvents ((sorted i).2 - 1) =
      numEvents ((sorted i).2 - 1) + if i ≤ k then e i else 0 := by
  have hi1 := (mem_Icc.mp hi).1
  induction k with
  | zero => rw [addFirst, if_neg (by omega), Nat.add_zero]
  | succ k ih =>
      have hrest := ih (by omega)
      rw [addFirst]
      rcases eq_or_ne i (k + 1) with rfl | hne
      · rw [Function.update_self, hrest, if_neg (by omega), if_pos (le_refl _), Nat.add_zero]
      · have hplace : (sorted i).2 - 1 ≠ (sorted (k + 1)).2 - 1 := fun heq =>
          hne (h i hi (k + 1) (mem_Icc.mpr ⟨by omega, hk⟩) heq)
        rw [Function.update_of_ne hplace, hrest]
        by_cases hik : i ≤ k
        · rw [if_pos hik, if_pos (by omega)]
        · rw [if_neg hik, if_neg (by omega)]

/-- **The lowest cues** are those counted. -/
theorem lowest_stationsWithSameCue (hsorted : Sorted Prod.fst n sorted) (hn : 0 < n)
    {numEvents : ℕ → ℕ} {min total : ℕ}
    (h : Level n (fun i => (sorted i).1) (fun i => numEvents ((sorted i).2 - 1)) min total)
    (hfirst : (sorted 1).1 + numEvents ((sorted 1).2 - 1) = min) :
    Lowest n (fun i => (sorted i).1) (fun i => numEvents ((sorted i).2 - 1)) min
      (sorted (stationsWithSameCue sorted numEvents n min + 1)).1
      (stationsWithSameCue sorted numEvents n min) := by
  refine lowest_takeWhile hsorted hn h (fun i _ => ?_) hfirst
  rw [decide_eq_true_eq]
  exact eq_comm

/-- A round, for the arrays of the code. -/
theorem level_addFirst (hplaces : PlacesDiffer sorted n) {numEvents : ℕ → ℕ}
    {min next k total : ℕ}
    (h : Level n (fun i => (sorted i).1) (fun i => numEvents ((sorted i).2 - 1)) min total)
    (hk : Lowest n (fun i => (sorted i).1) (fun i => numEvents ((sorted i).2 - 1)) min next k)
    (hkn : k < n) :
    Level n (fun i => (sorted i).1)
        (fun i => addFirst sorted (fun _ => next - min) k numEvents ((sorted i).2 - 1)) next
        (total + (next - min) * k) ∧
      (sorted 1).1 + addFirst sorted (fun _ => next - min) k numEvents ((sorted 1).2 - 1) =
        next := by
  have habove := hk.above hkn
  have hone : 1 ≤ k := hk.pos
  have hlow : (sorted 1).1 + numEvents ((sorted 1).2 - 1) = min :=
    hk.low 1 (mem_Icc.mpr ⟨le_refl 1, hone⟩)
  refine ⟨(h.raise hk hkn).congr fun i hi => addFirst_apply hplaces _ hk.le numEvents hi, ?_⟩
  rw [addFirst_apply hplaces _ hk.le _ (mem_Icc.mpr ⟨le_refl 1, by omega⟩), if_pos hone]
  omega

/-- **What the loop finds** is water-filling. -/
theorem doleOut_spec (hsorted : Sorted Prod.fst n sorted) (hplaces : PlacesDiffer sorted n)
    (hn : 0 < n) (fuel : ℕ) {min eventsDoledOut : ℕ} {numEvents f : ℕ → ℕ}
    (h : Level n (fun i => (sorted i).1) (fun i => numEvents ((sorted i).2 - 1)) min eventsDoledOut)
    (hfirst : (sorted 1).1 + numEvents ((sorted 1).2 - 1) = min)
    (hle : eventsDoledOut ≤ eventsLeft)
    (hdole : doleOut sorted n eventsLeft fuel min eventsDoledOut numEvents = some f) :
    WaterFilling n (fun i => (sorted i).1) (fun i => f ((sorted i).2 - 1)) eventsLeft := by
  induction fuel generalizing min eventsDoledOut numEvents with
  | zero =>
      obtain ⟨hdone, heq⟩ := Option.ite_none_left_eq_some.mp hdole
      obtain rfl := Option.some.inj heq
      obtain rfl : eventsDoledOut = eventsLeft := by omega
      exact h.done
  | succ fuel ih =>
      have hlowest := lowest_stationsWithSameCue hsorted hn h hfirst
      rw [doleOut] at hdole
      generalize stationsWithSameCue sorted numEvents n min = k at hlowest hdole
      split at hdole
      case isFalse hdone =>
        obtain rfl := Option.some.inj hdole
        obtain rfl : eventsDoledOut = eventsLeft := by omega
        exact h.done
      case isTrue hmore =>
        dsimp only at hdole
        have hspread : k = n ∨ eventsLeft - eventsDoledOut < ((sorted (k + 1)).1 - min) * k →
            WaterFilling n (fun i => (sorted i).1)
              (fun i => spread sorted k (eventsLeft - eventsDoledOut) numEvents ((sorted i).2 - 1))
              eventsLeft := fun hlast => by
          have hlast := h.spread hlowest hlast
          rw [Nat.add_sub_cancel' hle] at hlast
          exact hlast.congr (fun _ _ => rfl) fun i hi =>
            addFirst_apply hplaces _ hlowest.le numEvents hi
        split at hdole
        case isTrue hall =>
          obtain rfl := Option.some.inj hdole
          exact hspread (.inl hall)
        case isFalse hall =>
          obtain ⟨toNext, hmul, hdole⟩ := Option.bind_eq_some_iff.mp hdole
          obtain ⟨-, rfl⟩ := intMul_eq_some.mp hmul
          split at hdole
          case isTrue hshort =>
            obtain rfl := Option.some.inj hdole
            exact hspread (.inr hshort)
          case isFalse hreach =>
            obtain ⟨hraise, hfirst⟩ := level_addFirst hplaces h hlowest (hlowest.le.lt_of_ne hall)
            exact ih hraise hfirst (by omega) hdole

/-- **The loop comes to an end with a result** when the rises it comes to are within what an
`int` has room for, and only then. -/
theorem doleOut_isSome_iff (hsorted : Sorted Prod.fst n sorted) (hplaces : PlacesDiffer sorted n)
    (hn : 0 < n) (fuel : ℕ) {min eventsDoledOut : ℕ} (numEvents : ℕ → ℕ)
    (h : Level n (fun i => (sorted i).1) (fun i => numEvents ((sorted i).2 - 1)) min eventsDoledOut)
    (hfirst : (sorted 1).1 + numEvents ((sorted 1).2 - 1) = min)
    (hmin : ∃ i ∈ Icc 1 n, (sorted i).1 = min)
    (hle : eventsDoledOut ≤ eventsLeft) (hfuel : eventsLeft - eventsDoledOut ≤ fuel) :
    (doleOut sorted n eventsLeft fuel min eventsDoledOut numEvents).isSome ↔
      RisesFrom (fun _ rise => rise ≤ intMax) n (fun i => (sorted i).1) eventsLeft min := by
  have hrises : RisesFrom (fun _ rise => rise ≤ intMax) n (fun i => (sorted i).1) eventsLeft min ↔
      _ := h.risesFrom_iff (lowest_stationsWithSameCue hsorted hn h hfirst) hmin fun _ => rfl
  induction fuel generalizing min eventsDoledOut numEvents with
  | zero =>
      rw [doleOut, if_neg (by omega), hrises]
      exact iff_of_true rfl fun hmore => absurd hmore (by omega)
  | succ fuel ih =>
      have hlowest := lowest_stationsWithSameCue hsorted hn h hfirst
      rw [doleOut, hrises]
      generalize stationsWithSameCue sorted numEvents n min = k at hlowest ⊢
      by_cases hmore : eventsDoledOut < eventsLeft
      case neg =>
        rw [if_neg hmore]
        exact iff_of_true rfl fun hmore' => absurd hmore' hmore
      case pos =>
        rw [if_pos hmore]
        dsimp only
        by_cases hall : k = n
        case pos =>
          rw [if_pos hall]
          exact iff_of_true rfl fun _ hkn => absurd hall hkn.ne
        case neg =>
          have hkn : k < n := lt_of_le_of_ne hlowest.le hall
          have hmin' : ∃ i ∈ Icc 1 n, (sorted i).1 = (sorted (k + 1)).1 :=
            ⟨k + 1, mem_Icc.mpr ⟨by omega, by omega⟩, rfl⟩
          have habove := hlowest.above hkn
          obtain ⟨hraise, hfirst'⟩ := level_addFirst hplaces h hlowest hkn
          have hpos : 1 ≤ ((sorted (k + 1)).1 - min) * k := Nat.mul_pos (by omega) hlowest.pos
          have hshort : eventsLeft < eventsDoledOut + ((sorted (k + 1)).1 - min) * k →
              RisesFrom (fun _ rise => rise ≤ intMax) n (fun i => (sorted i).1) eventsLeft
                (sorted (k + 1)).1 := fun hlt => h.risesFrom_of_lt hlowest hkn hlt
          rw [if_neg hall]
          simp only [hmore, hkn, forall_const]
          unfold intMul
          split
          case isFalse hbig => exact iff_of_false nofun fun hrises => hbig hrises.1
          case isTrue hfits =>
            rw [Option.bind_some, and_iff_right hfits]
            split
            case isTrue hreach => exact iff_of_true rfl (hshort (by omega))
            case isFalse hreach =>
              exact ih _ hraise hfirst' hmin' (by omega) (by omega) (hraise.risesFrom_iff
                (lowest_stationsWithSameCue hsorted hn hraise hfirst') hmin' fun _ => rfl)

end DoleOut

/-- **The numbers of events** are found when the rises are within what an `int` has room for. -/
theorem numEventsOf_isSome_iff {inListCount : List ℕ} (hcounts : 0 < inListCount.length)
    (eventsLeft : ℕ) :
    (numEventsOf inListCount eventsLeft).isSome ↔
      RisesWithin intMax inListCount.length (fun i => inListCount.getD (i - 1) 0) eventsLeft := by
  obtain ⟨hsorted, hplaces, σ, hσ, happly⟩ := gapSort_counts inListCount
  have h1 : 1 ∈ Icc 1 inListCount.length := mem_Icc.mpr ⟨le_refl 1, hcounts⟩
  rw [risesWithin_iff, ← RisesFrom.reindex σ hσ fun i => congrArg Prod.fst (happly i)]
  unfold numEventsOf
  dsimp only
  generalize gapSort Prod.fst inListCount.length (fun i => (inListCount.getD (i - 1) 0, i)) =
    sorted at *
  have hlow : ∀ i ∈ Icc 1 inListCount.length, (sorted 1).1 ≤ (sorted i).1 := fun i hi =>
    hsorted 1 i (le_refl 1) (mem_Icc.mp hi).1 (mem_Icc.mp hi).2
  exact (doleOut_isSome_iff hsorted hplaces hcounts eventsLeft (fun _ => 0) (level_start hlow)
    (Nat.add_zero _) ⟨1, h1, rfl⟩ (Nat.zero_le _) (Nat.sub_le _ _)).trans (RisesFrom.of_low hlow)

/-- **They are water-filling.** -/
theorem numEventsOf_spec {inListCount : List ℕ} (hcounts : 0 < inListCount.length)
    {eventsLeft : ℕ} {numEvents : ℕ → ℕ} (h : numEventsOf inListCount eventsLeft = some numEvents) :
    WaterFilling inListCount.length (fun i => inListCount.getD (i - 1) 0)
      (fun i => numEvents (i - 1)) eventsLeft := by
  obtain ⟨hsorted, hplaces, σ, hσ, happly⟩ := gapSort_counts inListCount
  rw [← waterFilling_reindex_iff σ hσ]
  unfold numEventsOf at h
  dsimp only at h
  generalize gapSort Prod.fst inListCount.length (fun i => (inListCount.getD (i - 1) 0, i)) =
    sorted at *
  have hlow : ∀ i ∈ Icc 1 inListCount.length, (sorted 1).1 ≤ (sorted i).1 := fun i hi =>
    hsorted 1 i (le_refl 1) (mem_Icc.mp hi).1 (mem_Icc.mp hi).2
  have hfirst : (sorted 1).1 + (fun _ => 0) ((sorted 1).2 - 1) = (sorted 1).1 := Nat.add_zero _
  have hfill := doleOut_spec hsorted hplaces hcounts eventsLeft (level_start hlow) hfirst
    (Nat.zero_le _) h
  simpa only [happly] using hfill

/-! ### The group -/

/-- **The events that are left are shared out** among the stations, which had `inListCount`
events: each is written to exactly one of them, in their order, and the input lists end up as
even as they can. -/
structure SharesOut (stations inListCount left : List ℕ) (writes : List Write) : Prop where
  events : stations.flatMap (written writes) = left
  only : ∀ w ∈ writes, w.1 ∈ stations
  once : (writes.map Prod.fst).Nodup
  even : WaterFilling stations.length (fun i => inListCount.getD (i - 1) 0)
    (fun i => (written writes (stations.getD (i - 1) 0)).length) left.length

section Group

variable {stations inListCount : List ℕ} {firstimethruloop : Bool} {batch : Batch}

/-- The numbers found are what is written. -/
theorem sharesOut_of_numEvents (hnodup : stations.Nodup) (hne : stations ≠ [])
    (hlen : inListCount.length = stations.length) {left : List ℕ} {numEvents : ℕ → ℕ}
    (h : numEventsOf inListCount left.length = some numEvents) :
    SharesOut stations inListCount left
      (cutWrites (stations.zip ((List.range stations.length).map numEvents)) left) := by
  have hpos := List.length_pos_iff.mpr hne
  have hfill := numEventsOf_spec (hlen ▸ hpos) h
  rw [hlen] at hfill
  set shares := (List.range stations.length).map numEvents with hshares
  have hsum : shares.sum = left.length := (sum_map_range numEvents _).trans hfill.total
  set pieces := shares.splitLengths left with hpieces
  have hlengths : pieces.map List.length = shares := List.map_splitLengths_length _ _ hsum.le
  have hflatten : pieces.flatten = left := List.flatten_splitLengths _ _ hsum.ge
  have hplen : stations.length = pieces.length := by simp [hpieces, hshares]
  have hfst : (stations.zip shares).map Prod.fst = stations :=
    List.map_fst_zip (by simp [hshares])
  have hwritten : written (cutWrites (stations.zip shares) left) =
      segment (stations.zip (pieces.map List.length)) pieces.flatten := by
    funext ps
    rw [written_cutWrites (by rwa [hfst]), hlengths, hflatten]
  have hgiven := segment_flatten hnodup hplen
  have hsub := map_fst_cutWrites (stations.zip shares) left
  rw [hfst] at hsub
  refine ⟨?_, fun w hw => hsub.subset (List.mem_map_of_mem hw), hsub.nodup hnodup,
    hfill.congr (fun _ _ => rfl) fun i hi => ?_⟩
  · rw [hwritten, List.flatMap_def, hgiven, hflatten]
  · have hin : i - 1 < stations.length := by
      have := mem_Icc.mp hi
      omega
    have hget := congrArg (fun l => (l.map List.length)[i - 1]?) hgiven
    rw [hwritten]
    simp only [hlengths, List.getElem?_map, hshares, List.getElem?_range hin, Option.map_some,
      List.getElem?_eq_getElem hin, Option.some.injEq] at hget
    rw [List.getD_eq_getElem?_getD, List.getElem?_eq_getElem hin, Option.getD_some, hlengths]
    exact hget

/-- The writes of an equal-cue group, where no product is too big. -/
theorem equalcueWrites_of_rises (hnodup : stations.Nodup) (hne : stations ≠ [])
    (hlen : inListCount.length = stations.length)
    (hfirst : firstimethruloop = true → ∀ x ∈ batch, x.2 = false)
    (hrises : RisesWithin intMax inListCount.length (fun i => inListCount.getD (i - 1) 0)
      (unput batch).length) :
    ∃ writes, equalcueWrites stations inListCount firstimethruloop batch (unput batch).length =
      some writes ∧ SharesOut stations inListCount (unput batch) writes := by
  have hpos := List.length_pos_iff.mpr hne
  rw [← numEventsOf_isSome_iff (hlen ▸ hpos), Option.isSome_iff_exists] at hrises
  obtain ⟨numEvents, hnum⟩ := hrises
  refine ⟨_, ?_, sharesOut_of_numEvents hnodup hne hlen hnum⟩
  unfold equalcueWrites
  rw [hnum, Option.map_some, Option.some_inj]
  dsimp only
  split
  case isTrue hf => rw [unput_eq_map (hfirst hf)]
  case isFalse => rw [unputWrites_eq]

/-- **An equal-cue group is dealt to as it should be** if and only if no rise that the loop
multiplies is too big for an `int`: for every number of stations, every vector of counts, and
every set of events that have been put elsewhere. -/
theorem equalcueWrites_shares_iff (hnodup : stations.Nodup) (hne : stations ≠ [])
    (hlen : inListCount.length = stations.length)
    (hfirst : firstimethruloop = true → ∀ x ∈ batch, x.2 = false) :
    (∃ writes, equalcueWrites stations inListCount firstimethruloop batch (unput batch).length =
        some writes ∧ SharesOut stations inListCount (unput batch) writes) ↔
      RisesWithin intMax inListCount.length (fun i => inListCount.getD (i - 1) 0)
        (unput batch).length := by
  refine ⟨?_, equalcueWrites_of_rises hnodup hne hlen hfirst⟩
  rintro ⟨writes, hwrites, -⟩
  have hpos := List.length_pos_iff.mpr hne
  rw [← numEventsOf_isSome_iff (hlen ▸ hpos), Option.isSome_iff_exists]
  obtain ⟨numEvents, hnum, -⟩ := Option.map_eq_some_iff.mp hwrites
  exact ⟨numEvents, hnum⟩

/-- Three members with `0`, `2` and `5` events, and a batch of which one event is elsewhere. -/
theorem equalcueWrites_shares_example :
    RisesWithin intMax 3 (fun i => [0, 2, 5].getD (i - 1) 0) 4 ∧
    ∃ writes, equalcueWrites [7, 8, 9] [0, 2, 5] false
        [(10, false), (11, true), (12, false), (13, false), (14, false)] 4 = some writes ∧
      SharesOut [7, 8, 9] [0, 2, 5] [10, 12, 13, 14] writes := by
  have hrises : RisesWithin intMax 3 (fun i => [0, 2, 5].getD (i - 1) 0) 4 := by
    unfold RisesWithin
    decide
  exact ⟨hrises, (@equalcueWrites_shares_iff [7, 8, 9] [0, 2, 5] false
    [(10, false), (11, true), (12, false), (13, false), (14, false)] (by decide) (by decide) rfl
    fun h => absurd h Bool.false_ne_true).mpr hrises⟩

end Group

/-- **A product that is out of reach.**  Of 99 active members one has 22000000 events in its
input list, and the others have none.  One event is left; but to find that it does not raise 98
lists to the length of the last one, `22000000 * 98` is computed, which `int` has no room for. -/
theorem equalcue_product_overflows :
    ¬ ∃ writes, equalcueWrites (List.range' 1 99) (List.replicate 98 0 ++ [22000000]) true
        [(0, false)] 1 = some writes ∧
      SharesOut (List.range' 1 99) (List.replicate 98 0 ++ [22000000]) [0] writes := by
  rintro ⟨writes, hwrites, -⟩
  obtain ⟨numEvents, hnum, -⟩ := Option.map_eq_some_iff.mp hwrites
  have hlen : (List.replicate 98 0 ++ [22000000]).length = 99 := rfl
  have hrises := (numEventsOf_isSome_iff (by omega) 1).mp (Option.isSome_iff_exists.mpr ⟨_, hnum⟩)
  rw [hlen] at hrises
  have hlow : ∀ l ∈ Icc 1 99, l ≠ 99 → (List.replicate 98 0 ++ [22000000]).getD (l - 1) 0 = 0 := by
    intro l hl hne
    have := mem_Icc.mp hl
    rw [List.getD_append _ _ _ _ (by rw [List.length_replicate]; omega), List.getD_eq_getElem?_getD,
      List.getElem?_replicate]
    split <;> rfl
  have hlow1 : (List.replicate 98 0 ++ [22000000]).getD (1 - 1) 0 = 0 := rfl
  have htop : (List.replicate 98 0 ++ [22000000]).getD (99 - 1) 0 = 22000000 := rfl
  have hcard : {l ∈ Icc 1 99 | (List.replicate 98 0 ++ [22000000]).getD (l - 1) 0 ≤ 0} =
      Icc 1 98 := by
    ext l
    rw [mem_filter, mem_Icc, mem_Icc]
    constructor
    · rintro ⟨hl, hle⟩
      refine ⟨hl.1, ?_⟩
      by_contra hlt
      obtain rfl : l = 99 := by omega
      omega
    · rintro ⟨h1, hl⟩
      exact ⟨⟨h1, by omega⟩, (hlow l (mem_Icc.mpr ⟨h1, by omega⟩) (by omega)).le⟩
  have h := hrises 1 (by simp) 99 (by simp)
  simp only [hlow1, htop, hcard, Nat.card_Icc] at h
  have hproduct := h (by decide) (fun l hl => ?_) (by simp)
  · exact absurd hproduct (by decide)
  · rcases eq_or_ne l 99 with rfl | hne
    · exact .inr htop.ge
    · exact .inl (hlow l hl hne).le

end EventTransfer
