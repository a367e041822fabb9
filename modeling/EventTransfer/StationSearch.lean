import EventTransfer.StationLink

/-!
# Finding a place for a station

The searches of `station_insert` on a well-formed chain: they end within a number of
rounds that the number of stations bounds, and the place they find fits the chain.  With
the stores of `StationLink` this verifies `station_insert` as a whole.
-/

namespace EventTransfer

open LinkedHeap StoreProgram StoreProgram.Prog

variable {s t : Stations} {gs gs' us vs : List Group} {ps : ℕ} {place : Place}

/-- **The walk of both searches** cuts the stations it is on in two: it stops behind the
first part, either because it has counted up to `position` or at the end. -/
theorem findPlace_eq {link : ℕ → Option ℕ} {position counter : ℤ} {fuel cur : ℕ} {rest : List ℕ}
    (h : Fwd link (cur :: rest) none) (hfuel : rest.length < fuel) :
    ∃ xs ys a, cur :: rest = xs ++ ys ∧ xs.getLast? = some a ∧
      findPlace link position fuel counter cur = some (a, ys.head?) ∧
      (ys ≠ [] → position = counter + xs.length - 1) ∧
      (ys = [] → position < counter ∨ counter + rest.length ≤ position) := by
  induction rest generalizing fuel counter cur with
  | nil =>
      obtain ⟨fuel, rfl⟩ : ∃ k, fuel = k + 1 := ⟨fuel - 1, by simp at hfuel; omega⟩
      have hend : link cur = none := h.1
      refine ⟨[cur], [], cur, rfl, rfl, ?_, by simp, fun _ => ?_⟩
      · simp [findPlace, hend]
      · simp only [List.length_nil, Nat.cast_zero, add_zero]
        exact lt_or_ge _ _
  | cons next rest ih =>
      obtain ⟨fuel, rfl⟩ : ∃ k, fuel = k + 1 := ⟨fuel - 1, by simp at hfuel; omega⟩
      have hnext : link cur = some next := h.1
      by_cases hc : counter = position
      · refine ⟨[cur], next :: rest, cur, rfl, rfl, ?_, fun _ => ?_, by simp⟩
        · simp [findPlace, hnext, hc]
        · simp [hc]
      · obtain ⟨xs, ys, a, hsplit, hlast, hfind, hpos, hend⟩ :=
          @ih (counter + 1) fuel next h.2 (by simpa using hfuel)
        refine ⟨cur :: xs, ys, a, by rw [hsplit, List.cons_append], ?_, ?_, fun hne => ?_,
          fun hnil => ?_⟩
        · simp [List.getLast?_cons, hlast]
        · simp [findPlace, hnext, hc, hfind]
        · rw [hpos hne, List.length_cons]
          push_cast
          ring
        · rw [List.length_cons]
          push_cast
          rcases hend hnil with hlt | hge
          · exact Or.inl (by omega)
          · exact Or.inr (by omega)

/-- A part of the main list is a part of the chain. -/
theorem heads_eq_append {xs ys : List ℕ} (h : heads gs = xs ++ ys) :
    ∃ us vs, gs = us ++ vs ∧ heads us = xs ∧ heads vs = ys := by
  obtain ⟨us, vs, h1, h2, h3⟩ := List.map_eq_append_iff.mp h
  exact ⟨us, vs, h1, h2, h3⟩

/-- The places `1` to `n` are taken as they are asked for; everything else is the last one. -/
def clamped (n : ℕ) (position : ℤ) : ℤ := if 1 ≤ position ∧ position ≤ n then position else n

theorem clamped_of_mem {n : ℕ} {position : ℤ} (h : 1 ≤ position ∧ position ≤ n) :
    clamped n position = position := if_pos h

theorem clamped_of_end {n : ℕ} {position : ℤ} (h : position < 1 ∨ n ≤ position) :
    clamped n position = n := by
  unfold clamped
  split
  case isTrue hmem => omega
  case isFalse => rfl

theorem clamped_mem {n : ℕ} (hn : 0 < n) (position : ℤ) :
    1 ≤ clamped n position ∧ clamped n position ≤ n := by
  unfold clamped
  split <;> omega

/-- The station would join the group of `hd`, if it was put there. -/
def JoinsAt (s : Stations) (ps hd : ℕ) (parallelposition : ℤ) : Prop :=
  s.isParallel ps ∧ s.isParallel hd ∧ parallelposition ≠ etNewhead

instance (s : Stations) (ps hd : ℕ) (parallelposition : ℤ) :
    Decidable (JoinsAt s ps hd parallelposition) := inferInstanceAs (Decidable (_ ∧ _ ∧ _))

/-- **What the search of `station_insert` finds**, and where in the chain that is. -/
inductive FoundPlace (s : Stations) (ps : ℕ) (position parallelposition : ℤ) :
    List Group → Place → Prop
  | atEnd {us : List Group} {previous : ℕ} (last : (heads us).getLast? = some previous)
      (pos : position < 1 ∨ us.length ≤ position) :
      FoundPlace s ps position parallelposition us (.atEnd previous)
  | between {us vs : List Group} {g : Group} {previous : ℕ}
      (last : (heads us).getLast? = some previous) (pos : position = us.length)
      (apart : ¬ JoinsAt s ps g.1 parallelposition) :
      FoundPlace s ps position parallelposition (us ++ g :: vs) (.between previous g.1)
  | refused {us vs : List Group} {g : Group} (ne : us ≠ []) (pos : position = us.length)
      (joins : JoinsAt s ps g.1 parallelposition)
      (why : stationCompareParallel (s.config g.1) (s.config ps) = false ∨ parallelposition = 0) :
      FoundPlace s ps position parallelposition (us ++ g :: vs) .refused
  | inGroup {us vs : List Group} {hd parallelStation : ℕ} {xs ys : List ℕ} (ne : us ≠ [])
      (pos : position = us.length) (joins : JoinsAt s ps hd parallelposition)
      (compare : stationCompareParallel (s.config hd) (s.config ps) = true)
      (nonzero : parallelposition ≠ 0) (last : (hd :: xs).getLast? = some parallelStation)
      (parallelpos : (xs.length + 1 : ℤ) = clamped ((xs ++ ys).length + 1) parallelposition) :
      FoundPlace s ps position parallelposition (us ++ (hd, xs ++ ys) :: vs)
        (.inGroup parallelStation ys.head?)

/-- **The search of `station_insert`** on a well-formed chain. -/
theorem insertPlace_found {fuel : ℕ} (ps : ℕ) (position parallelposition : ℤ) (h : ChainOk s gs)
    (hcount : s.nstations = (members gs).length + 1) (hfuel : (members gs).length ≤ fuel) :
    ∃ place, insertPlace fuel s ps position parallelposition = some place ∧
      FoundPlace s ps position parallelposition gs place := by
  obtain ⟨rest, rfl⟩ := h.heads_eq
  unfold insertPlace
  by_cases hfew : s.nstations < 3
  · -- GRAND_CENTRAL is alone
    have hrest : rest = [] := by
      rw [members_cons] at hcount
      cases rest with
      | nil => rfl
      | cons g rest => simp at hcount; omega
    subst hrest
    rw [if_pos hfew]
    refine ⟨_, rfl, .atEnd rfl ?_⟩
    simp only [List.length_singleton]
    omega
  rw [if_neg hfew]
  have hlen : (heads ((0, []) :: rest)).length ≤ fuel :=
    (heads_sublist_members _).length_le.trans hfuel
  obtain ⟨xs, ys, previous, hsplit, hlast, hfind, hpos, hend⟩ :=
    @findPlace_eq s.next position 1 fuel 0 (heads rest) h.main.fwd (by simpa using hlen)
  rw [hfind]
  obtain ⟨us, vs, hgs, rfl, rfl⟩ := @heads_eq_append ((0, []) :: rest) _ _ hsplit
  have hus : us ≠ [] := ne_nil_of_getLast?_heads hlast
  have hlenus : (heads us).length = us.length := List.length_map _
  cases vs with
  | nil =>
      rw [List.append_nil] at hgs
      rw [hgs]
      refine ⟨_, rfl, .atEnd hlast ?_⟩
      have hsum : us.length = rest.length + 1 := by rw [← hgs, List.length_cons]
      have hheads : (heads rest).length = rest.length := List.length_map _
      rcases hend rfl with hlt | hge
      · exact Or.inl hlt
      · exact Or.inr (by omega)
  | cons g vs =>
      have hposition : position = us.length := by
        have := hpos (by simp)
        omega
      rw [hgs] at h hfuel ⊢
      simp only [heads_cons, List.head?_cons]
      split
      case isFalse hmain => exact ⟨_, rfl, .between hlast hposition hmain⟩
      case isTrue hpar =>
        split
        case isTrue hcmp => exact ⟨_, rfl, .refused hus hposition hpar (Or.inl hcmp)⟩
        case isFalse hcmp =>
          split
          case isTrue hzero => exact ⟨_, rfl, .refused hus hposition hpar (Or.inr hzero)⟩
          case isFalse hzero =>
            obtain ⟨next, grp⟩ := g
            have hgroup := h.group (next, grp) (List.mem_append_right _ List.mem_cons_self)
            have hgrp : grp.length < fuel := by
              simp only [members_append, members_cons, List.length_append, List.length_cons]
                at hfuel
              omega
            obtain ⟨xs', ys', par, hsplit', hlast', hfind', hpos', hend'⟩ :=
              @findPlace_eq s.nextparallel parallelposition 1 fuel next grp hgroup.fwd hgrp
            obtain ⟨x, xs', rfl⟩ : ∃ x zs, xs' = x :: zs := by
              cases xs' with
              | nil => simp at hlast'
              | cons x zs => exact ⟨x, zs, rfl⟩
            rw [List.cons_append, List.cons.injEq] at hsplit'
            obtain ⟨rfl, rfl⟩ := hsplit'
            rw [hfind']
            refine ⟨_, rfl, .inGroup hus hposition hpar (by simpa using hcmp) hzero hlast' ?_⟩
            rw [List.length_append] at hend' ⊢
            cases ys' with
            | nil =>
                rw [clamped_of_end]
                · simp
                · have := hend' rfl
                  simp only [List.length_nil] at this ⊢
                  omega
            | cons y ys' =>
                have := hpos' (by simp)
                rw [List.length_cons] at this
                rw [clamped_of_mem]
                · omega
                · rw [List.length_cons]
                  omega

theorem FoundPlace.fits {position parallelposition : ℤ}
    (h : FoundPlace s ps position parallelposition gs place) :
    place = .refused ∨ ∃ gs', Fits s ps gs place gs' := by
  cases h with
  | atEnd last => exact Or.inr ⟨_, .atEnd last⟩
  | between last => exact Or.inr ⟨_, .between last rfl⟩
  | refused => exact Or.inl rfl
  | inGroup ne pos joins compare nonzero last =>
      exact Or.inr ⟨_, .inGroup ne last joins.2.1 joins.1 compare⟩

/-- **The search of `station_insert` finds a place that fits**, or refuses. -/
theorem insertPlace_fits {fuel : ℕ} (ps : ℕ) (position parallelposition : ℤ) (h : ChainOk s gs)
    (hcount : s.nstations = (members gs).length + 1) (hfuel : (members gs).length ≤ fuel) :
    ∃ place, insertPlace fuel s ps position parallelposition = some place ∧
      (place = .refused ∨ ∃ gs', Fits s ps gs place gs') := by
  obtain ⟨place, hplace, hfound⟩ :=
    insertPlace_found ps position parallelposition h hcount hfuel
  exact ⟨place, hplace, hfound.fits⟩

/-- A station that enters is added to the others. -/
theorem Fits.members_perm (hf : Fits s ps gs place gs') :
    (members gs').Perm (ps :: members gs) := by
  cases hf with
  | atEnd last => simp
  | between last first =>
      rw [members_append, members_append, members_cons]
      exact List.perm_middle
  | @inGroup us vs hd par xs ys ne last parallel parallel' compare =>
      have e1 : members (us ++ (hd, xs ++ ps :: ys) :: vs) =
          (members us ++ hd :: xs) ++ ps :: (ys ++ members vs) := by simp
      have e2 : members (us ++ (hd, xs ++ ys) :: vs) =
          (members us ++ hd :: xs) ++ (ys ++ members vs) := by simp
      rw [e1, e2]
      exact List.perm_middle

/-- More rounds change nothing once a search has ended. -/
theorem findPlace_mono {link : ℕ → Option ℕ} {position counter : ℤ} {fuel fuel' cur : ℕ}
    {r : ℕ × Option ℕ} (h : findPlace link position fuel counter cur = some r)
    (hle : fuel ≤ fuel') : findPlace link position fuel' counter cur = some r := by
  induction fuel generalizing fuel' counter cur with
  | zero => exact nomatch h
  | succ fuel ih =>
      obtain ⟨fuel', rfl⟩ : ∃ k, fuel' = k + 1 := ⟨fuel' - 1, by omega⟩
      unfold findPlace at h ⊢
      cases hl : link cur with
      | none => simpa [hl] using h
      | some next =>
          simp only [hl] at h ⊢
          split
          case isTrue hc =>
            rw [if_pos hc] at h
            exact h
          case isFalse hc =>
            rw [if_neg hc] at h
            exact ih h (by omega)

@[inherit_doc findPlace_mono]
theorem insertPlace_mono {fuel fuel' : ℕ} {position parallelposition : ℤ}
    (h : insertPlace fuel s ps position parallelposition = some place) (hle : fuel ≤ fuel') :
    insertPlace fuel' s ps position parallelposition = some place := by
  unfold insertPlace at h ⊢
  split
  case isTrue hfew =>
    rw [if_pos hfew] at h
    exact h
  case isFalse hfew =>
    rw [if_neg hfew] at h
    cases hfind : findPlace s.next position fuel 1 0 with
    | none => exact absurd h (by simp [hfind])
    | some r =>
        rw [hfind] at h
        rw [findPlace_mono hfind hle]
        obtain ⟨previous, _ | next⟩ := r
        · exact h
        simp only at h ⊢
        split
        case isFalse hpar =>
          rw [if_neg hpar] at h
          exact h
        case isTrue hpar =>
          rw [if_pos hpar] at h
          split
          case isTrue hcmp =>
            rw [if_pos hcmp] at h
            exact h
          case isFalse hcmp =>
            rw [if_neg hcmp] at h
            split
            case isTrue hzero =>
              rw [if_pos hzero] at h
              exact h
            case isFalse hzero =>
              rw [if_neg hzero] at h
              obtain ⟨r, hr, rfl⟩ := Option.map_eq_some_iff.mp h
              rw [findPlace_mono hr hle, Option.map_some]

/-- What `station_insert` returns and leaves: nothing is changed, or the station has
entered the chain. -/
def InsertDone (s : Stations) (gs gs' : List Group) (ps fuel : ℕ) (r : Option Ret)
    (t : Stations) : Prop :=
  gs' = gs ∧ t = s ∧ (r = some .error ∨ r = none ∧ fuel < (members gs).length) ∨
  (members gs').Perm (ps :: members gs) ∧ r = some .ok ∧ ChainOk t gs' ∧ LinksOnly s t

/-- **`station_insert`, store by store.**  The station is put at the place found, or the
request is refused before any store. -/
theorem wp_stationInsert (fuel : ℕ) (position parallelposition : ℤ) (h : ChainOk s gs)
    (hps : ps ∉ members gs) (hcount : s.nstations = (members gs).length + 1)
    (hc : ∀ place, insertPlace fuel s ps position parallelposition = some place →
      Clean s ps place) :
    ∃ gs', (gs' = gs ∨ (members gs').Perm (ps :: members gs)) ∧
      wp (stationInsert fuel ps position parallelposition) (Halfway s gs gs')
        (InsertDone s gs gs' ps fuel) s := by
  have hstart : ∀ gs', Halfway s gs gs' s := fun gs' => h.halfway_start
  have unchanged : ∀ r : Option Ret, (r = some .error ∨ r = none ∧ fuel < (members gs).length) →
      Halfway s gs gs s ∧ wp (pure r) (Halfway s gs gs) (InsertDone s gs gs ps fuel) s :=
    fun r hr => ⟨hstart gs, (wp_pure r).mpr ⟨hstart gs, Or.inl ⟨rfl, rfl, hr⟩⟩⟩
  cases hplace : insertPlace fuel s ps position parallelposition with
  | none =>
      refine ⟨gs, Or.inl rfl, ?_⟩
      simp only [stationInsert, wp_bind, wp_get, hplace]
      refine unchanged none (Or.inr ⟨rfl, ?_⟩)
      by_contra hle
      obtain ⟨place, hplace', -⟩ :=
        insertPlace_fits ps position parallelposition h hcount (not_lt.mp hle)
      rw [hplace] at hplace'
      cases hplace'
  | some place =>
      obtain ⟨place', hplace', hfits⟩ :=
        insertPlace_fits ps position parallelposition h hcount (le_max_right fuel _)
      obtain rfl : place = place' :=
        Option.some.inj ((insertPlace_mono hplace (le_max_left fuel _)).symm.trans hplace')
      rcases hfits with rfl | ⟨gs', hf⟩
      · refine ⟨gs, Or.inl rfl, ?_⟩
        simp only [stationInsert, wp_bind, wp_get, hplace]
        exact unchanged _ (Or.inl rfl)
      · refine ⟨gs', Or.inr hf.members_perm, ?_⟩
        have hlink := wp_linkAt h hps hf (hc place hplace)
        simp only [stationInsert, wp_bind, wp_get, hplace]
        refine ⟨hstart gs', ?_⟩
        have hthen : wp (linkAt ps place >>= fun _ => pure (some Ret.ok)) (Halfway s gs gs')
            (InsertDone s gs gs' ps fuel) s := by
          rw [wp_bind]
          refine wp_mono hlink (fun _ h => h) fun _ t ht hq => ?_
          rw [wp_pure]
          exact ⟨ht, Or.inr ⟨hf.members_perm, rfl, hq⟩⟩
        cases hf <;> exact hthen

end EventTransfer
