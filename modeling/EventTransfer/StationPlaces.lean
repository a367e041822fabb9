import EventTransfer.StationRepair

/-!
# Position set and position found

`station_insert` and `station_find` walk over the same lists, and count alike: a station is
found where it was put (`stationFind_insert`).  This does not depend on the links the station
has brought along.  The other stations do depend on them: a link that the new place does not
set leads a walk off the lists, or through one group twice.

`et_station_setposition` takes the station out first and puts it back with the same
`station_insert` if its new place is refused.  The way back is refused, too, if the station
headed a group, or was followed by a station that it could have joined.
-/

namespace EventTransfer

open LinkedHeap StoreProgram StoreProgram.Prog

variable {cfg : SysConfig} {s t : Stations} {gs gs' us vs : List Group} {ps : ℕ} {place : Place}

/-! ## Finding -/

/-- Along the group the search counts the stations it passes. -/
theorem findInGroup_reach {fuel cur : ℕ} {counter : ℤ} {xs : List ℕ}
    (h : Fwd s.nextparallel (cur :: xs) (some ps)) (hps : ps ∉ xs) (hfuel : xs.length < fuel) :
    findInGroup s ps fuel counter cur = some (some (counter + xs.length)) := by
  induction xs generalizing fuel cur counter with
  | nil =>
      obtain ⟨fuel, rfl⟩ : ∃ k, fuel = k + 1 := ⟨fuel - 1, by simp at hfuel; omega⟩
      have hnext : s.nextparallel cur = some ps := h.1
      simp [findInGroup, hnext]
  | cons x xs ih =>
      obtain ⟨fuel, rfl⟩ : ∃ k, fuel = k + 1 := ⟨fuel - 1, by simp at hfuel; omega⟩
      have hnext : s.nextparallel cur = some x := h.1
      rw [List.mem_cons, not_or] at hps
      have hrest := @ih fuel x (counter + 1) h.2 hps.2 (by simpa using hfuel)
      simp only [findInGroup, hnext, if_neg (Ne.symm hps.1), hrest, List.length_cons]
      push_cast
      rw [add_assoc, add_comm (1 : ℤ)]

/-- **What the forward links show of the main list up to `q`**, with the groups passed. -/
structure UpTo (s : Stations) (us : List Group) (q : ℕ) : Prop where
  gc : us.head? = some (0, [])
  main : Fwd s.next (heads us) (some q)
  group : ∀ g ∈ us, if s.isParallel g.1 then Fwd s.nextparallel (g.1 :: g.2) none else g.2 = []

/-- Along the main list the search passes the groups that the station is not in. -/
theorem findInMain_reach {groupFuel fuel cur q : ℕ} {counter : ℤ}
    (hmain : Fwd s.next (cur :: heads us) (some q))
    (hgroup : ∀ g ∈ us,
      if s.isParallel g.1 then Fwd s.nextparallel (g.1 :: g.2) none else g.2 = [])
    (hps : ps ∉ members us) (hfuel : us.length < fuel) (hgf : ∀ g ∈ us, g.2.length < groupFuel) :
    ∃ k last, s.next last = some q ∧ findInMain s ps groupFuel fuel counter cur =
      findInMain s ps groupFuel (k + 1) (counter + us.length) last := by
  induction us generalizing fuel cur counter with
  | nil =>
      obtain ⟨fuel, rfl⟩ : ∃ k, fuel = k + 1 := ⟨fuel - 1, by simp at hfuel; omega⟩
      exact ⟨fuel, cur, hmain.1, by simp⟩
  | cons g us ih =>
      obtain ⟨fuel, rfl⟩ : ∃ k, fuel = k + 1 := ⟨fuel - 1, by simp at hfuel; omega⟩
      have hnext : s.next cur = some g.1 := hmain.1
      rw [members_cons, List.mem_cons, List.mem_append, not_or, not_or] at hps
      obtain ⟨k, last, hlast, hrest⟩ := @ih fuel g.1 (counter + 1) hmain.2
        (fun k hk => hgroup k (List.mem_cons_of_mem _ hk)) hps.2.2 (by simpa using hfuel)
        fun k hk => hgf k (List.mem_cons_of_mem _ hk)
      refine ⟨k, last, hlast, ?_⟩
      have hcount : counter + 1 + (us.length : ℤ) = counter + ((g :: us).length : ℕ) := by
        rw [List.length_cons]
        push_cast
        ring
      rw [← hcount, ← hrest, findInMain]
      simp only [hnext, if_neg (Ne.symm hps.1)]
      have hg := hgroup g List.mem_cons_self
      cases hpar : s.isParallel g.1 with
      | false => rfl
      | true =>
          rw [hpar, if_pos rfl] at hg
          obtain ⟨r, hr, hiff⟩ := findInGroup_eq ps 1 hg (hgf g List.mem_cons_self)
          have hnone : r = none := by
            cases r with
            | none => rfl
            | some r => exact absurd (hiff.mp rfl) hps.2.1
          rw [hnone] at hr
          simp only [hr, if_true]

section Find

variable {fuel q : ℕ}

theorem UpTo.reach (h : UpTo s us q) (hps : ps ∉ members us) (hn : 2 ≤ s.nstations)
    (hfuel : (members us).length ≤ fuel) :
    ∃ k last, s.next last = some q ∧
      stationFind fuel s ps = findInMain s ps fuel (k + 1) us.length last := by
  obtain ⟨rest, rfl⟩ : ∃ rest, us = (0, []) :: rest := by
    cases us with
    | nil => exact absurd h.gc (by simp)
    | cons g rest => exact ⟨rest, by rw [show g = (0, []) by simpa using h.gc]⟩
  rw [members_cons, List.nil_append] at hps hfuel
  rw [List.length_cons] at hfuel
  have hheads : (heads rest).length ≤ (members rest).length := (heads_sublist_members rest).length_le
  have hlen : rest.length ≤ (members rest).length := by
    rwa [heads, List.length_map] at hheads
  have hgf : ∀ g ∈ rest, g.2.length < fuel := by
    intro g hg
    obtain ⟨xs, ys, rfl⟩ := List.append_of_mem hg
    simp only [members_append, members_cons, List.length_append, List.length_cons] at hfuel
    omega
  obtain ⟨k, last, hlast, hreach⟩ := @findInMain_reach s rest ps fuel fuel 0 q 1 h.main
    (fun g hg => h.group g (List.mem_cons_of_mem _ hg)) (fun hm => hps (List.mem_cons_of_mem _ hm))
    (by omega) hgf
  refine ⟨k, last, hlast, ?_⟩
  have h0 : ps ≠ 0 := fun h0 => hps (h0 ▸ List.mem_cons_self)
  rw [stationFind, if_neg h0, if_neg (by omega), hreach, List.length_cons]
  push_cast
  rw [add_comm (1 : ℤ)]

/-- **A station of the main list is found** at its place there. -/
theorem UpTo.find_main (h : UpTo s us ps) (hps : ps ∉ members us) (hn : 2 ≤ s.nstations)
    (hfuel : (members us).length ≤ fuel) :
    stationFind fuel s ps = some (some ((us.length : ℤ), 0)) := by
  obtain ⟨k, last, hlast, hreach⟩ := h.reach hps hn hfuel
  rw [hreach, findInMain]
  simp [hlast]

/-- **A station behind the head of a group is found** by the places of both. -/
theorem UpTo.find_group {hd : ℕ} {xs : List ℕ} (h : UpTo s us hd) (hps : ps ∉ members us)
    (hhd : hd ≠ ps) (hpar : s.isParallel hd) (hgroup : Fwd s.nextparallel (hd :: xs) (some ps))
    (hxs : ps ∉ xs) (hn : 2 ≤ s.nstations) (hfuel : (members us).length + xs.length < fuel) :
    stationFind fuel s ps = some (some ((us.length : ℤ), (xs.length : ℤ) + 1)) := by
  obtain ⟨k, last, hlast, hreach⟩ := h.reach hps hn (Nat.le_of_lt (Nat.lt_of_le_of_lt (Nat.le_add_right _ _) hfuel))
  rw [hreach, findInMain]
  simp only [hlast, if_neg hhd, hpar, if_true]
  rw [findInGroup_reach hgroup hxs (by omega)]
  simp [add_comm]

end Find

/-! ## What the stores of `station_insert` leave -/

/-- The station without the links it has brought along. -/
def Stations.cleared (s : Stations) (ps : ℕ) : Stations :=
  { s with next := assign s.next (some ps) none
           prev := assign s.prev (some ps) none
           nextparallel := assign s.nextparallel (some ps) none
           prevparallel := assign s.prevparallel (some ps) none }

/-- Two tables that differ in the links of one station only. -/
structure AgreeBut (s t : Stations) (ps : ℕ) : Prop where
  config : t.config = s.config
  nstations : t.nstations = s.nstations
  next : ∀ i ≠ ps, t.next i = s.next i
  prev : ∀ i ≠ ps, t.prev i = s.prev i
  nextparallel : ∀ i ≠ ps, t.nextparallel i = s.nextparallel i
  prevparallel : ∀ i ≠ ps, t.prevparallel i = s.prevparallel i

theorem AgreeBut.refl (s : Stations) (ps : ℕ) : AgreeBut s s ps :=
  ⟨rfl, rfl, fun _ _ => rfl, fun _ _ => rfl, fun _ _ => rfl, fun _ _ => rfl⟩

theorem agreeBut_cleared (s : Stations) (ps : ℕ) : AgreeBut s (s.cleared ps) ps :=
  ⟨rfl, rfl, fun _ hi => Function.update_of_ne hi _ _, fun _ hi => Function.update_of_ne hi _ _,
    fun _ hi => Function.update_of_ne hi _ _, fun _ hi => Function.update_of_ne hi _ _⟩

theorem clean_cleared (s : Stations) (ps : ℕ) (place : Place) : Clean (s.cleared ps) ps place := by
  cases place <;> simp [Clean, Stations.cleared]

theorem ChainOk.cleared (h : ChainOk s gs) (hps : ps ∉ members gs) : ChainOk (s.cleared ps) gs := by
  have hne : ∀ i ∈ members gs, i ≠ ps := fun i hi => ne_of_mem_of_not_mem hi hps
  have ha := agreeBut_cleared s ps
  exact h.congr (fun _ _ => rfl) (fun i hi => ha.next i (hne i hi)) (fun i hi => ha.prev i (hne i hi))
    (fun i hi => ha.nextparallel i (hne i hi)) (fun i hi => ha.prevparallel i (hne i hi)) rfl

theorem final_linkAt_atEnd (s : Stations) (ps previous : ℕ) :
    final (linkAt ps (.atEnd previous)) s =
      { s with prev := assign s.prev (some ps) (some previous)
               statTail := some ps
               next := assign s.next (some previous) (some ps) } := by
  simp only [linkAt, final_bind, final_store]

theorem final_linkAt_between (s : Stations) (ps previous next : ℕ) :
    final (linkAt ps (.between previous next)) s =
      { s with next := assign (assign s.next (some ps) (some next)) (some previous) (some ps)
               prev := assign (assign s.prev (some ps) (some previous)) (some next) (some ps) } := by
  simp only [linkAt, final_bind, final_store]

theorem final_linkAt_inGroup (s : Stations) (ps parallelStation : ℕ) (nextparallel : Option ℕ) :
    final (linkAt ps (.inGroup parallelStation nextparallel)) s =
      { s with nextparallel := assign (assign s.nextparallel (some ps) nextparallel)
                 (some parallelStation) (some ps)
               prevparallel := assign (assign s.prevparallel (some ps) (some parallelStation))
                 nextparallel (some ps) } := by
  simp only [linkAt, final_bind, final_store, when]
  cases nextparallel with
  | none => rfl
  | some n => rfl

theorem linkAt_linksOnly (s : Stations) (ps : ℕ) (place : Place) :
    LinksOnly s (final (linkAt ps place) s) := by
  cases place with
  | atEnd previous =>
      rw [final_linkAt_atEnd]
      exact ⟨rfl, rfl, rfl, rfl, rfl⟩
  | between previous next =>
      rw [final_linkAt_between]
      exact ⟨rfl, rfl, rfl, rfl, rfl⟩
  | inGroup parallelStation nextparallel =>
      rw [final_linkAt_inGroup]
      exact ⟨rfl, rfl, rfl, rfl, rfl⟩
  | refused => exact .refl s

theorem assign_agree {f g : ℕ → Option ℕ} (h : ∀ i ≠ ps, g i = f i) (p v : Option ℕ) :
    ∀ i ≠ ps, assign g p v i = assign f p v i := by
  intro i hi
  rw [assign_apply, assign_apply, h i hi]

/-- The stores do not depend on the links the station has brought along. -/
theorem linkAt_agree (s : Stations) (ps : ℕ) (place : Place) :
    AgreeBut (final (linkAt ps place) (s.cleared ps)) (final (linkAt ps place) s) ps := by
  have hc : AgreeBut (s.cleared ps) s ps := by
    have := agreeBut_cleared s ps
    exact ⟨rfl, rfl, fun i hi => (this.next i hi).symm, fun i hi => (this.prev i hi).symm,
      fun i hi => (this.nextparallel i hi).symm, fun i hi => (this.prevparallel i hi).symm⟩
  cases place with
  | atEnd previous =>
      rw [final_linkAt_atEnd, final_linkAt_atEnd]
      refine ⟨rfl, rfl, ?_, ?_, hc.nextparallel, hc.prevparallel⟩
      · exact assign_agree hc.next (some previous) (some ps)
      · exact assign_agree hc.prev (some ps) (some previous)
  | between previous next =>
      rw [final_linkAt_between, final_linkAt_between]
      refine ⟨rfl, rfl, ?_, ?_, hc.nextparallel, hc.prevparallel⟩
      · exact assign_agree (assign_agree hc.next (some ps) (some next)) (some previous) (some ps)
      · exact assign_agree (assign_agree hc.prev (some ps) (some previous)) (some next) (some ps)
  | inGroup parallelStation nextparallel =>
      rw [final_linkAt_inGroup, final_linkAt_inGroup]
      refine ⟨rfl, rfl, hc.next, hc.prev, ?_, ?_⟩
      · exact assign_agree (assign_agree hc.nextparallel (some ps) nextparallel)
          (some parallelStation) (some ps)
      · exact assign_agree (assign_agree hc.prevparallel (some ps) (some parallelStation))
          nextparallel (some ps)
  | refused => exact hc

/-- What `station_insert` returns and leaves, by the place it finds. -/
theorem stationInsert_eq {fuel : ℕ} {position parallelposition : ℤ}
    (h : insertPlace fuel s ps position parallelposition = some place) :
    value (stationInsert fuel ps position parallelposition) s =
        some (if place = .refused then .error else .ok) ∧
      final (stationInsert fuel ps position parallelposition) s = final (linkAt ps place) s := by
  unfold stationInsert
  rw [value_bind, final_bind, value_get, final_get, h]
  cases place with
  | atEnd previous => exact ⟨rfl, rfl⟩
  | between previous next => exact ⟨rfl, rfl⟩
  | inGroup parallelStation nextparallel => exact ⟨rfl, by simp only [final_bind, final_pure]⟩
  | refused => exact ⟨rfl, rfl⟩

/-! ## Where the station is -/

/-- **The group the station joins** if it is put at the position asked for. -/
def joinedGroup (s : Stations) (gs : List Group) (ps : ℕ) (position parallelposition : ℤ) :
    Option Group :=
  if 1 ≤ position then gs[position.toNat]?.filter fun g => JoinsAt s ps g.1 parallelposition
  else none

/-- **The places asked for**, in lists of the lengths they have: in the main list, and in the
group if the station joins one. -/
def askedPlace (s : Stations) (gs : List Group) (ps : ℕ) (position parallelposition : ℤ) :
    ℤ × ℤ :=
  (clamped gs.length position,
    match joinedGroup s gs ps position parallelposition with
    | some g => clamped (g.2.length + 1) parallelposition
    | none => 0)

/-- **No link is left over that the walks would follow**: the station does not come from the
middle of the main list to its end, and from the head or the middle of a group not into the
main list. -/
def NoLeftover (s : Stations) (gs : List Group) (ps : ℕ) (position parallelposition : ℤ) :
    Prop :=
  (position < 1 ∨ gs.length ≤ position → s.next ps = none) ∧
  (joinedGroup s gs ps position parallelposition = none → s.isParallel ps = true →
    s.nextparallel ps = none)

section Inserted

variable {position parallelposition : ℤ} {g : Group} {fuel : ℕ}

theorem joinedGroup_end (h : position < 1 ∨ gs.length ≤ position) :
    joinedGroup s gs ps position parallelposition = none := by
  unfold joinedGroup
  split
  case isFalse => rfl
  case isTrue h1 =>
    rw [List.getElem?_eq_none (by omega)]
    rfl

theorem joinedGroup_at (hus : us ≠ []) (hpos : position = us.length) :
    joinedGroup s (us ++ g :: vs) ps position parallelposition =
      if JoinsAt s ps g.1 parallelposition then some g else none := by
  have hlen : 0 < us.length := List.length_pos_of_ne_nil hus
  have hnat : position.toNat = us.length := by omega
  rw [joinedGroup, if_pos (by omega), hnat, List.getElem?_append_right le_rfl, Nat.sub_self,
    List.getElem?_cons_zero, Option.filter_some]
  simp only [decide_eq_true_eq]

theorem joinedGroup_congr (hcfg : t.config = s.config) :
    joinedGroup t gs ps position parallelposition =
      joinedGroup s gs ps position parallelposition := by
  have hjoins : ∀ i, JoinsAt t ps i parallelposition ↔ JoinsAt s ps i parallelposition := by
    intro i
    rw [JoinsAt, JoinsAt, isParallel_congr hcfg]
  simp only [joinedGroup, hjoins]

/-- What a walk sees in a table that differs from a well-formed one in one station. -/
theorem ChainOk.upTo {q : ℕ} {grp : List ℕ} (h : ChainOk s (us ++ (q, grp) :: vs)) (hus : us ≠ [])
    (ha : AgreeBut s t ps) (hps : ps ∉ members us) : UpTo t us q := by
  have hne : ∀ i ∈ members us, i ≠ ps := fun i hi => ne_of_mem_of_not_mem hi hps
  have hf := h.forward
  refine ⟨?_, ?_, fun k hk => ?_⟩
  · have hgc := h.gc
    rwa [head?_append_of_ne_nil hus _ [], List.append_nil] at hgc
  · have hmain := hf.main
    rw [heads_append, fwd_append, heads_cons, List.head?_cons, Option.some_or] at hmain
    exact hmain.1.congr fun i hi => ha.next i (hne i (mem_members_of_mem_heads hi))
  · have hk' := hf.group k (List.mem_append_left _ hk)
    rw [isParallel_congr ha.config]
    split
    case isTrue hp =>
      rw [if_pos hp] at hk'
      exact hk'.congr fun i hi => ha.nextparallel i (hne i (mem_members.mpr ⟨k, hk, hi⟩))
    case isFalse hp =>
      rw [if_neg hp] at hk'
      exact hk'

/-- The table after the stores, if the station had brought no links along. -/
theorem Fits.linked (hf : Fits s ps gs place gs') (h : ChainOk s gs) (hps : ps ∉ members gs) :
    ChainOk (final (linkAt ps place) (s.cleared ps)) gs' ∧
      AgreeBut (final (linkAt ps place) (s.cleared ps)) (final (linkAt ps place) s) ps := by
  have hf' : Fits (s.cleared ps) ps gs place gs' := by
    cases hf with
    | atEnd last => exact .atEnd last
    | between last first => exact .between last first
    | inGroup ne last parallel parallel' compare => exact .inGroup ne last parallel parallel' compare
  exact ⟨(wp_linkAt (h.cleared hps) hps hf' (clean_cleared s ps place)).2.1, linkAt_agree s ps place⟩

/-- **A station is found where it was put.**  The places are those asked for, as far as the
lists reach. -/
theorem stationFind_insert (h : ChainOk s gs) (hps : ps ∉ members gs)
    (hcount : s.nstations = (members gs).length + 1) (hfuel : (members gs).length ≤ fuel)
    (hok : value (stationInsert fuel ps position parallelposition) s = some .ok) :
    stationFind fuel (final (stationInsert fuel ps position parallelposition) s) ps =
      some (some (askedPlace s gs ps position parallelposition)) := by
  obtain ⟨place, hplace, hfound⟩ := insertPlace_found ps position parallelposition h hcount hfuel
  obtain ⟨hvalue, hfinal⟩ := stationInsert_eq hplace
  rw [hfinal, askedPlace]
  have htwo : 2 ≤ (final (linkAt ps place) s).nstations := by
    have hpos : 0 < (members gs).length := List.length_pos_of_mem h.zero_mem
    rw [(linkAt_linksOnly s ps place).nstations, hcount]
    omega
  cases hfound with
  | atEnd last pos =>
      obtain ⟨hchain, ha⟩ := (Fits.atEnd last).linked h hps
      have hus : gs ≠ [] := ne_nil_of_getLast?_heads last
      rw [joinedGroup_end pos, clamped_of_end pos]
      exact (hchain.upTo hus ha hps).find_main hps htwo hfuel
  | @between us vs g previous last pos apart =>
      obtain ⟨hchain, ha⟩ := (Fits.between last rfl).linked h hps
      have hus : us ≠ [] := ne_nil_of_getLast?_heads last
      have hpsu : ps ∉ members us := fun hm => hps (by simp [hm])
      have hlen : 0 < us.length := List.length_pos_of_ne_nil hus
      rw [joinedGroup_at hus pos, if_neg apart, clamped_of_mem (by simp; omega), pos]
      refine (hchain.upTo hus ha hpsu).find_main hpsu htwo ?_
      rw [members_append, List.length_append] at hfuel
      omega
  | refused ne pos joins why =>
      rw [hvalue, if_pos rfl] at hok
      exact nomatch hok
  | @inGroup us vs hd par xs ys ne pos joins compare nonzero last parallelpos =>
      obtain ⟨hchain, ha⟩ := (Fits.inGroup ne last joins.2.1 joins.1 compare).linked h hps
      have hpsu : ps ∉ members us := fun hm => hps (by simp [hm])
      have hpsx : ps ∉ xs := fun hm => hps (by simp [hm])
      have hhd : hd ≠ ps := fun hm => hps (by simp [hm])
      have hlen : 0 < us.length := List.length_pos_of_ne_nil ne
      rw [joinedGroup_at ne pos, if_pos joins, clamped_of_mem (by simp; omega), pos]
      dsimp only
      rw [← parallelpos]
      have hgroup : Fwd (final (linkAt ps (.inGroup par ys.head?)) s).nextparallel (hd :: xs)
          (some ps) := by
        have hseg := (hchain.group (hd, xs ++ ps :: ys) (by simp)).fwd
        rw [← List.cons_append, fwd_append, List.head?_cons, Option.some_or] at hseg
        refine hseg.1.congr fun i hi => ha.nextparallel i ?_
        rintro rfl
        rcases List.mem_cons.mp hi with hi | hi
        · exact hhd hi.symm
        · exact hpsx hi
      refine (hchain.upTo ne ha hpsu).find_group hpsu hhd ?_ hgroup hpsx htwo ?_
      · rw [isParallel_congr ha.config]
        exact (hchain.compat (hd, xs ++ ps :: ys) (by simp) (by simp) hd (by simp)).1
      · simp only [members_append, members_cons, List.length_append, List.length_cons] at hfuel
        omega

/-! ## The order of the others -/

/-- **The order of the others is as it was**: the forward links show a chain that is the old
one as soon as the station is taken out of it. -/
def OthersInOrder (t : Stations) (gs : List Group) (ps : ℕ) : Prop :=
  ∃ gs', Forward t gs' ∧ (heads gs').erase ps = heads gs ∧ (members gs').erase ps = members gs

theorem Fits.erase (hf : Fits s ps gs place gs') (hps : ps ∉ members gs) :
    (heads gs').erase ps = heads gs ∧ (members gs').erase ps = members gs := by
  have hheads : ps ∉ heads gs := fun hm => hps (mem_members_of_mem_heads hm)
  cases hf with
  | atEnd last =>
      rw [heads_append, members_append, List.erase_append_right _ hheads,
        List.erase_append_right _ hps]
      simp
  | between last first =>
      rw [heads_append, List.mem_append, not_or] at hheads
      rw [members_append, List.mem_append, not_or] at hps
      rw [heads_append, members_append, List.erase_append_right _ hheads.1,
        List.erase_append_right _ hps.1]
      simp
  | @inGroup us vs hd par xs ys ne last parallel parallel' compare =>
      have hpsu : ps ∉ members us ++ hd :: xs := by
        simp only [members_append, members_cons, List.mem_append, List.mem_cons, not_or] at hps
        simp only [List.mem_append, List.mem_cons, not_or]
        exact ⟨hps.1, hps.2.1, hps.2.2.1.1⟩
      have e1 : members (us ++ (hd, xs ++ ps :: ys) :: vs) =
          (members us ++ hd :: xs) ++ ps :: (ys ++ members vs) := by simp
      have e2 : members (us ++ (hd, xs ++ ys) :: vs) =
          (members us ++ hd :: xs) ++ (ys ++ members vs) := by simp
      have e3 : heads (us ++ (hd, xs ++ ps :: ys) :: vs) = heads (us ++ (hd, xs ++ ys) :: vs) := by
        simp
      rw [e1, e2, e3, List.erase_append_right _ hpsu, List.erase_cons_head,
        List.erase_of_not_mem hheads]
      exact ⟨rfl, rfl⟩

/-- If the station itself shows no other links than those set for its place. -/
theorem Fits.othersInOrder (hf : Fits s ps gs place gs') (h : ChainOk s gs) (hps : ps ∉ members gs)
    (hnext : ps ∈ heads gs' → (final (linkAt ps place) s).next ps =
      (final (linkAt ps place) (s.cleared ps)).next ps)
    (hnp : s.isParallel ps = true → (final (linkAt ps place) s).nextparallel ps =
      (final (linkAt ps place) (s.cleared ps)).nextparallel ps) :
    OthersInOrder (final (linkAt ps place) s) gs ps := by
  obtain ⟨hchain, ha⟩ := hf.linked h hps
  have h0 : 0 ≠ ps := ne_of_mem_of_not_mem h.zero_mem hps
  obtain ⟨hheads, hmembers⟩ := hf.erase hps
  refine ⟨gs', hchain.forward.congr_parallel ha.config (fun i hi => ?_) (ha.nextparallel 0 h0)
    (fun g hg hpar i hi => ?_) (ha.prev 0 h0) (ha.prevparallel 0 h0), hheads, hmembers⟩
  · by_cases hip : i = ps
    · subst hip
      exact hnext hi
    · exact ha.next i hip
  · by_cases hip : i = ps
    · subst hip
      refine hnp ?_
      have hpari : (final (linkAt i place) (s.cleared i)).isParallel i = true := by
        rcases List.mem_cons.mp hi with hhd | hmem
        · rwa [← hhd] at hpar
        · exact (hchain.compat g hg (List.ne_nil_of_mem hmem) i hi).1
      rwa [isParallel_congr (linkAt_linksOnly (s.cleared i) i place).config] at hpari
    · exact ha.nextparallel i hip

/-- Without left-over links the walks find all stations, and in their order. -/
theorem FoundPlace.othersInOrder (hf : FoundPlace s ps position parallelposition gs place)
    (hplace : place ≠ .refused) (h : ChainOk s gs) (hps : ps ∉ members gs)
    (hleft : NoLeftover s gs ps position parallelposition) :
    OthersInOrder (final (linkAt ps place) s) gs ps := by
  cases hf with
  | @atEnd _ previous last pos =>
      have hne : ps ≠ previous := by
        rintro rfl
        exact hps (mem_members_of_mem_heads (List.mem_of_getLast? last))
      have hnext := hleft.1 pos
      have hnp := hleft.2 (joinedGroup_end pos)
      refine (Fits.atEnd last).othersInOrder h hps (fun _ => ?_) fun hpar => ?_
      · simp only [final_linkAt_atEnd, Stations.cleared, assign_some, Function.update_of_ne hne,
          Function.update_self]
        exact hnext
      · simp only [final_linkAt_atEnd, Stations.cleared, assign_some, Function.update_self]
        exact hnp hpar
  | @between us vs g previous last pos apart =>
      have hus : us ≠ [] := ne_nil_of_getLast?_heads last
      have hnp := hleft.2 (by rw [joinedGroup_at hus pos, if_neg apart])
      refine (Fits.between last rfl).othersInOrder h hps (fun _ => ?_) fun hpar => ?_
      · simp only [final_linkAt_between, Stations.cleared, assign_some, Function.update_idem]
      · simp only [final_linkAt_between, Stations.cleared, assign_some, Function.update_self]
        exact hnp hpar
  | refused => exact absurd rfl hplace
  | @inGroup us vs hd par xs ys ne pos joins compare nonzero last parallelpos =>
      have hheads : ps ∉ heads (us ++ (hd, xs ++ ys) :: vs) :=
        fun hm => hps (mem_members_of_mem_heads hm)
      refine (Fits.inGroup ne last joins.2.1 joins.1 compare).othersInOrder h hps
        (fun hm => absurd ?_ hheads) fun _ => ?_
      · simpa using hm
      · simp only [final_linkAt_inGroup, Stations.cleared, assign_some, Function.update_idem]

/-- **Where a chain is shown** that has the others in their order, a station of the main list
whose group is walked has nothing left behind it. -/
theorem Forward.nextparallel_eq_none {a : ℕ} (hf : Forward t gs') (h : ChainOk s gs)
    (hmembers : (members gs').erase ps = members gs) (hheads : (heads gs').erase ps = heads gs)
    (hcfg : t.config = s.config) (hnp : ∀ i ≠ ps, t.nextparallel i = s.nextparallel i)
    (ha : a ∈ heads gs) (hnext : t.next a = some ps) (hpar : s.isParallel ps = true) :
    t.nextparallel ps = none := by
  have hin : ∀ i ∈ heads gs, i ∈ heads gs' :=
    fun i hi => List.mem_of_mem_erase (hheads.symm ▸ hi)
  have hout : ∀ i ∈ members gs, i ≠ ps := by
    intro i hi
    rw [← hmembers] at hi
    rintro rfl
    exact hf.nodup.not_mem_erase hi
  have hip := isParallel_congr hcfg
  -- the station heads a group
  have hps : ps ∈ heads gs' := hf.main.mem_of_next (hin a ha) hnext
  obtain ⟨g, hg, rfl⟩ := List.mem_map.mp hps
  have hwalk := hf.group g hg
  rw [hip, hpar, if_pos rfl] at hwalk
  rcases hgrp : g.2 with _ | ⟨q, grp⟩
  · rw [hgrp] at hwalk
    exact hwalk.1
  · exfalso
    have hqg : q ∈ g.1 :: g.2 := by simp [hgrp]
    have hq : q ∈ members gs' := mem_members.mpr ⟨g, hg, hqg⟩
    have hqps : q ≠ g.1 := by
      rintro rfl
      obtain ⟨xs, ys, rfl⟩ := List.append_of_mem hg
      have hnd := hf.nodup
      rw [members_append, members_cons, List.nodup_append, List.nodup_cons] at hnd
      exact hnd.2.1.1 (List.mem_append_left _ (by simp [hgrp]))
    -- the next one is one of the others, and so it is in a group of theirs
    have hqgs : q ∈ members gs := by
      rw [← hmembers]
      exact (List.mem_erase_of_ne hqps).mpr hq
    obtain ⟨k, hk, hqk⟩ := mem_members.mp hqgs
    obtain ⟨k', hk', hkk⟩ := List.mem_map.mp (hin k.1 (List.mem_map_of_mem hk))
    have hqk' : q ∈ k'.1 :: k'.2 := by
      rcases List.mem_cons.mp hqk with hq1 | hq2
      · rw [hq1, ← hkk]
        exact List.mem_cons_self
      · have hkpar := (h.compat k hk (List.ne_nil_of_mem hq2) k.1 List.mem_cons_self).1
        have hwalk' := hf.group k' hk'
        rw [hip, hkk, hkpar, if_pos rfl] at hwalk'
        have hold : Fwd t.nextparallel (k.1 :: k.2) none :=
          (h.group k hk).fwd.congr fun i hi => hnp i (hout i (mem_members.mpr ⟨k, hk, hi⟩))
        rw [hwalk'.unique hold]
        exact List.mem_cons_of_mem _ hq2
    have heq : g = k' := group_unique hf.nodup hg hk' hqg hqk'
    exact hout k.1 (mem_members.mpr ⟨k, hk, List.mem_cons_self⟩) (by rw [heq, hkk])

/-- Left-over links do harm. -/
theorem FoundPlace.noLeftover (hf : FoundPlace s ps position parallelposition gs place)
    (hplace : place ≠ .refused) (h : ChainOk s gs) (hps : ps ∉ members gs)
    (ho : OthersInOrder (final (linkAt ps place) s) gs ps) :
    NoLeftover s gs ps position parallelposition := by
  obtain ⟨gs', hforward, hheads, hmembers⟩ := ho
  have hcfg := (linkAt_linksOnly s ps place).config
  cases hf with
  | @atEnd _ previous last pos =>
      rw [final_linkAt_atEnd] at hforward hcfg
      have hprevious : previous ∈ heads gs := List.mem_of_getLast? last
      have hne : previous ≠ ps := by
        rintro rfl
        exact hps (mem_members_of_mem_heads hprevious)
      refine ⟨fun _ => ?_, fun _ hpar => ?_⟩
      · -- of all stations of the main list, only this one can be the last
        obtain ⟨b, hb, hend⟩ := hforward.main.exists_end
          (List.ne_nil_of_mem (List.mem_of_mem_erase (hheads.symm ▸ hprevious)))
        by_cases hbps : b = ps
        · subst hbps
          simpa [hne.symm] using hend
        · exfalso
          have hbgs : b ∈ heads gs := by
            rw [← hheads]
            exact (List.mem_erase_of_ne hbps).mpr hb
          by_cases hbp : b = previous
          · simp [hbp] at hend
          · simp only [assign_some, Function.update_of_ne hbp] at hend
            obtain ⟨xs, a, hxs⟩ := (List.eq_nil_or_concat' (heads gs)).resolve_left
              (List.ne_nil_of_mem hbgs)
            rw [hxs, List.getLast?_concat, Option.some.injEq] at last
            rw [hxs, List.mem_append, List.mem_singleton, last] at hbgs
            have hmain := h.main.fwd
            rw [hxs, fwd_append] at hmain
            exact hmain.1.next_ne_none (hbgs.resolve_right hbp) hend
      · have := hforward.nextparallel_eq_none h hmembers hheads hcfg (fun _ _ => rfl) hprevious
          (by simp) hpar
        exact this
  | @between us vs g previous last pos apart =>
      rw [final_linkAt_between] at hforward hcfg
      have hprevious : previous ∈ heads (us ++ g :: vs) := by
        rw [heads_append]
        exact List.mem_append_left _ (List.mem_of_getLast? last)
      have hus : us ≠ [] := ne_nil_of_getLast?_heads last
      have hlen : 0 < us.length := List.length_pos_of_ne_nil hus
      refine ⟨fun hend => ?_, fun _ hpar => ?_⟩
      · rw [List.length_append, List.length_cons] at hend
        omega
      · have := hforward.nextparallel_eq_none h hmembers hheads hcfg (fun _ _ => rfl) hprevious
          (by simp) hpar
        exact this
  | refused => exact absurd rfl hplace
  | @inGroup us vs hd par xs ys ne pos joins compare nonzero last parallelpos =>
      have hlen : 0 < us.length := List.length_pos_of_ne_nil ne
      refine ⟨fun hend => ?_, fun hnone => ?_⟩
      · rw [List.length_append, List.length_cons] at hend
        omega
      · rw [joinedGroup_at ne pos, if_pos joins] at hnone
        exact nomatch hnone

/-- **Position set and position found.**  A station that was put into a well-formed chain is
found at the places asked for, as far as the lists reach; and the order of all others is as it
was exactly if the station has brought no link along that the walks follow. -/
theorem insert_agrees_find_iff (h : ChainOk s gs) (hps : ps ∉ members gs)
    (hcount : s.nstations = (members gs).length + 1) (hfuel : (members gs).length ≤ fuel)
    (hok : value (stationInsert fuel ps position parallelposition) s = some .ok) :
    (stationFind fuel (final (stationInsert fuel ps position parallelposition) s) ps =
        some (some (askedPlace s gs ps position parallelposition)) ∧
      OthersInOrder (final (stationInsert fuel ps position parallelposition) s) gs ps) ↔
      NoLeftover s gs ps position parallelposition := by
  rw [and_iff_right (stationFind_insert h hps hcount hfuel hok)]
  obtain ⟨place, hplace, hfound⟩ := insertPlace_found ps position parallelposition h hcount hfuel
  obtain ⟨hvalue, hfinal⟩ := stationInsert_eq hplace
  have hne : place ≠ .refused := by
    rintro rfl
    rw [hvalue, if_pos rfl] at hok
    exact nomatch hok
  rw [hfinal]
  exact ⟨fun ho => hfound.noLeftover hne h hps ho, fun hl => hfound.othersInOrder hne h hps hl⟩

end Inserted

/-! ### A station and a group -/

/-- A system with room for GRAND_CENTRAL and three stations. -/
def threeStations : SysConfig := ⟨1, 4, 1⟩

/-- The table with station `"X"` (1) at the first place behind GRAND_CENTRAL, and the group of
`"A"` (2) and `"B"` (3) at the second. -/
def tableGroup : Stations :=
  final (etStationCreateAt threeStations 4 true (some "B") (some groupableConfig) 2 1)
    (final (etStationCreateAt threeStations 4 true (some "A") (some groupableConfig) 2 etEnd)
      (final (etStationCreateAt threeStations 4 true (some "X") none etEnd etEnd)
        (.initial threeStations)))

theorem stationsOk_tableGroup : ∃ gs, StationsOk threeStations tableGroup gs := by
  have hrun : StationRun threeStations (fun s op => op.Proper s) tableGroup := by
    refine @StationRun.step _ _ _ _ (.create 4 true (some "B") (some groupableConfig) 2 1)
      (@StationRun.step _ _ _ _ (.create 4 true (some "A") (some groupableConfig) 2 etEnd)
        (@StationRun.step _ _ _ _ (.create 4 true (some "X") none etEnd etEnd) .start trivial
          (.create (?_ : _ = some (Ret.ok, some 1)))) trivial
        (.create (?_ : _ = some (Ret.ok, some 2)))) trivial
      (.create (?_ : _ = some (Ret.ok, some 3)))
    · decide
    · decide
    · decide
  exact hrun.stationsOk (by decide)

/-- The table without one of its stations. -/
theorem tableGroup_takenOut {i : ℕ} (hi : tableGroup.InUse i) (h0 : i ≠ 0) :
    ∃ gs, ChainOk (final (stationRemove i) tableGroup) gs ∧ i ∉ members gs ∧
      (final (stationRemove i) tableGroup).nstations = (members gs).length + 1 ∧
      (members gs).length ≤ 4 := by
  obtain ⟨gs, hgs⟩ := stationsOk_tableGroup
  obtain ⟨gs', hl⟩ := hgs.chain.exists_leaves ((hgs.inUse i).mpr hi) h0
  obtain ⟨hchain, -, -, hi', hcount, hlen⟩ := hgs.takenOut hl
  have hle : (members gs).length ≤ 4 := hgs.length_le
  exact ⟨gs', hchain, hi', hcount, by omega⟩

/-- `"B"` is taken out of the group and put to the end of the main list. -/
theorem insert_agrees_find_example :
    ∃ gs, ChainOk (final (stationRemove 3) tableGroup) gs ∧ 3 ∉ members gs ∧
      (final (stationRemove 3) tableGroup).nstations = (members gs).length + 1 ∧
      (members gs).length ≤ 4 ∧
      value (stationInsert 4 3 etEnd etEnd) (final (stationRemove 3) tableGroup) = some .ok ∧
      OthersInOrder (final (stationInsert 4 3 etEnd etEnd) (final (stationRemove 3) tableGroup))
        gs 3 := by
  obtain ⟨gs, h, hps, hcount, hfuel⟩ := tableGroup_takenOut (i := 3) (by decide) (by decide)
  have hok : value (stationInsert 4 3 etEnd etEnd) (final (stationRemove 3) tableGroup) =
      some .ok := by decide
  have hleft : NoLeftover (final (stationRemove 3) tableGroup) gs 3 etEnd etEnd :=
    ⟨fun _ => by decide, fun _ _ => by decide⟩
  exact ⟨gs, h, hps, hcount, hfuel, hok,
    ((insert_agrees_find_iff h hps hcount hfuel hok).mpr hleft).2⟩

/-- **A left-over link puts others into the group.**  `"A"`, which headed the group of `"B"`, is
put before `"X"` as a new head.  It still leads to `"B"`, which is found behind it now, and so
before `"X"`. -/
theorem insert_changes_order :
    ∃ gs, ChainOk (final (stationRemove 2) tableGroup) gs ∧ 2 ∉ members gs ∧
      (final (stationRemove 2) tableGroup).nstations = (members gs).length + 1 ∧
      (members gs).length ≤ 4 ∧
      value (stationInsert 4 2 1 etNewhead) (final (stationRemove 2) tableGroup) = some .ok ∧
      ¬ OthersInOrder (final (stationInsert 4 2 1 etNewhead) (final (stationRemove 2) tableGroup))
        gs 2 ∧
      stationFind 4 (final (stationRemove 2) tableGroup) 1 = some (some (1, 0)) ∧
      stationFind 4 (final (stationRemove 2) tableGroup) 3 = some (some (2, 0)) ∧
      stationFind 4 (final (stationInsert 4 2 1 etNewhead) (final (stationRemove 2) tableGroup)) 3 =
        some (some (1, 1)) ∧
      stationFind 4 (final (stationInsert 4 2 1 etNewhead) (final (stationRemove 2) tableGroup)) 1 =
        some (some (2, 0)) := by
  obtain ⟨gs, h, hps, hcount, hfuel⟩ := tableGroup_takenOut (i := 2) (by decide) (by decide)
  refine ⟨gs, h, hps, hcount, hfuel, by decide, fun ho => ?_, by decide, by decide, by decide,
    by decide⟩
  obtain ⟨place, hplace, hfound⟩ := insertPlace_found 2 1 etNewhead h hcount hfuel
  have hplace' : insertPlace 4 (final (stationRemove 2) tableGroup) 2 1 etNewhead =
      some (.between 0 1) := by decide
  obtain rfl := Option.some.inj (hplace.symm.trans hplace')
  rw [(stationInsert_eq hplace).2] at ho
  have hleft := (hfound.noLeftover nofun h hps ho).2
  have hnone : (final (stationRemove 2) tableGroup).nextparallel 2 = none := by
    refine hleft ?_ (by decide)
    unfold joinedGroup
    split
    · rw [Option.filter_eq_none_iff]
      simp [JoinsAt]
    · rfl
  exact absurd hnone (by decide)

/-! ## Moving -/

/-- The new place is one that `station_insert` refuses: in a group that the station does not
fit into, or at the head of one. -/
def NewPlaceRefused (s : Stations) (gs : List Group) (ps : ℕ) (position parallelposition : ℤ) :
    Prop :=
  ∃ g, joinedGroup s gs ps position parallelposition = some g ∧
    (stationCompareParallel (s.config g.1) (s.config ps) = false ∨ parallelposition = 0)

/-- **The old place is one that `station_insert` refuses**: the station is parallel and in the
main list, where it heads a group or has another parallel station behind it. -/
def OldPlaceRefused (s : Stations) (ps : ℕ) : Prop :=
  s.isParallel ps = true ∧ s.prev ps ≠ none ∧
    (s.nextparallel ps ≠ none ∨ ∃ next, s.next ps = some next ∧ s.isParallel next = true)

/-- **The call is atomic**: it succeeds, or it fails and all links and positions are as they
were. -/
def Atomic (fuel : ℕ) (s : Stations) (r : Option Ret) (t : Stations) : Prop :=
  r = some .ok ∨ (∃ e, e ≠ .ok ∧ r = some e) ∧
    (t.next = s.next ∧ t.prev = s.prev ∧ t.nextparallel = s.nextparallel ∧
      t.prevparallel = s.prevparallel) ∧ t.statTail = s.statTail ∧
    ∀ i, stationFind fuel t i = stationFind fuel s i

section Moving

variable {position parallelposition : ℤ} {fuel i : ℕ}

theorem FoundPlace.refused_iff (hf : FoundPlace s ps position parallelposition gs place) :
    place = .refused ↔ NewPlaceRefused s gs ps position parallelposition := by
  cases hf with
  | atEnd last pos =>
      refine ⟨nofun, ?_⟩
      rintro ⟨g, hg, -⟩
      rw [joinedGroup_end pos] at hg
      exact nomatch hg
  | between last pos apart =>
      refine ⟨nofun, ?_⟩
      rintro ⟨g, hg, -⟩
      rw [joinedGroup_at (ne_nil_of_getLast?_heads last) pos, if_neg apart] at hg
      exact nomatch hg
  | refused ne pos joins why =>
      refine ⟨fun _ => ⟨_, ?_, why⟩, fun _ => rfl⟩
      rw [joinedGroup_at ne pos, if_pos joins]
  | inGroup ne pos joins compare nonzero last parallelpos =>
      refine ⟨nofun, ?_⟩
      rintro ⟨g, hg, hwhy⟩
      rw [joinedGroup_at ne pos, if_pos joins, Option.some.injEq] at hg
      subst hg
      rcases hwhy with hcmp | hzero
      · rw [compare] at hcmp
        exact nomatch hcmp
      · exact absurd hzero nonzero

/-! ### All links of a chain are determined -/

theorem ChainOk.links_unique (h : ChainOk s gs) (h' : ChainOk t gs) (hi : i ∈ members gs) :
    t.next i = s.next i ∧ t.prev i = s.prev i ∧ t.nextparallel i = s.nextparallel i ∧
      t.prevparallel i = s.prevparallel i := by
  obtain ⟨g, hg, hig⟩ := mem_members.mp hi
  obtain ⟨xs, ys, hxs⟩ := List.append_of_mem hig
  have hgroup := h.group g hg
  have hgroup' := h'.group g hg
  rw [hxs] at hgroup hgroup'
  have hmain : t.next i = s.next i ∧ t.prev i = s.prev i := by
    rcases List.mem_cons.mp hig with rfl | hmem
    · have hhead : g.1 ∈ heads gs := List.mem_map_of_mem hg
      obtain ⟨us, vs, hus⟩ := List.append_of_mem hhead
      have hseg := h.main
      have hseg' := h'.main
      rw [hus] at hseg hseg'
      exact ⟨hseg'.links.2.trans hseg.links.2.symm, hseg'.links.1.trans hseg.links.1.symm⟩
    · obtain ⟨h1, h2⟩ := h.sub g hg i hmem
      obtain ⟨h1', h2'⟩ := h'.sub g hg i hmem
      exact ⟨h2'.trans h2.symm, h1'.trans h1.symm⟩
  exact ⟨hmain.1, hmain.2, hgroup'.links.2.trans hgroup.links.2.symm,
    hgroup'.links.1.trans hgroup.links.1.symm⟩

/-- They lead to stations of the chain. -/
theorem ChainOk.link_mem {j : ℕ} (h : ChainOk s gs) (hi : i ∈ members gs)
    (hj : s.next i = some j ∨ s.prev i = some j ∨ s.nextparallel i = some j ∨
      s.prevparallel i = some j) : j ∈ members gs := by
  obtain ⟨g, hg, hig⟩ := mem_members.mp hi
  obtain ⟨xs, ys, hxs⟩ := List.append_of_mem hig
  have hgroup := h.group g hg
  rw [hxs] at hgroup
  have hmain : s.next i = some j ∨ s.prev i = some j → j ∈ members gs := by
    rcases List.mem_cons.mp hig with rfl | hmem
    · have hhead : g.1 ∈ heads gs := List.mem_map_of_mem hg
      obtain ⟨us, vs, hus⟩ := List.append_of_mem hhead
      have hseg := h.main
      rw [hus] at hseg
      rw [hseg.links.1, hseg.links.2, Option.or_none, Option.or_none]
      refine fun hj => mem_members_of_mem_heads ?_
      rw [hus]
      rcases hj with hj | hj
      · exact List.mem_append_right _ (List.mem_cons_of_mem _ (List.mem_of_head? hj))
      · exact List.mem_append_left _ (List.mem_of_getLast? hj)
    · obtain ⟨h1, h2⟩ := h.sub g hg i hmem
      rw [h1, h2]
      rintro (hj | hj)
      · exact nomatch hj
      · exact nomatch hj
  have hpar : s.nextparallel i = some j ∨ s.prevparallel i = some j → j ∈ members gs := by
    rw [hgroup.links.1, hgroup.links.2, Option.or_none, Option.or_none]
    refine fun hj => mem_members.mpr ⟨g, hg, ?_⟩
    rw [hxs]
    rcases hj with hj | hj
    · exact List.mem_append_right _ (List.mem_cons_of_mem _ (List.mem_of_head? hj))
    · exact List.mem_append_left _ (List.mem_of_getLast? hj)
  rcases hj with hj | hj | hj
  · exact hmain (Or.inl hj)
  · exact hmain (Or.inr hj)
  · exact hpar hj

/-- Taking a station out changes no links outside the chain, ... -/
theorem ChainOk.stationRemove_outside (h : ChainOk s gs) (hps : ps ∈ members gs) :
    LinksOutside (members gs) s (final (stationRemove ps) s) := by
  have hwp : wp (stationRemove ps) (fun _ => True) (fun _ t => LinksOutside (members gs) s t) s := by
    have hn : ∀ i ∉ members gs, ¬ s.next ps = some i :=
      fun i hi hl => hi (h.link_mem hps (Or.inl hl))
    have hp : ∀ i ∉ members gs, ¬ s.prev ps = some i :=
      fun i hi hl => hi (h.link_mem hps (Or.inr (Or.inl hl)))
    have hnp : ∀ i ∉ members gs, ¬ s.nextparallel ps = some i :=
      fun i hi hl => hi (h.link_mem hps (Or.inr (Or.inr (Or.inl hl))))
    have hpp : ∀ i ∉ members gs, ¬ s.prevparallel ps = some i :=
      fun i hi hl => hi (h.link_mem hps (Or.inr (Or.inr (Or.inr hl))))
    simp only [stationRemove, unlinkMain, unlinkHead, unlinkMember, wp_bind, wp_get, wp_ite,
      wp_when, wp_store, true_and]
    split_ifs
    all_goals
      intro i hi
      simp only [assign_apply, hn i hi, hp i hi, hnp i hi, hpp i hi, if_false, and_self]
  exact hwp.2

/-- ... and putting it back does not, either. -/
theorem Fits.linkAt_outside (hf : Fits s ps gs place gs') :
    LinksOutside (members gs') s (final (linkAt ps place) s) := by
  have hmem : ∀ i ∉ members gs', i ≠ ps ∧ i ∉ members gs := by
    intro i hi
    rw [hf.members_perm.mem_iff, List.mem_cons, not_or] at hi
    exact hi
  intro i hi
  obtain ⟨hips, higs⟩ := hmem i hi
  have hps : ¬ some ps = some i := fun heq => hips (Option.some.inj heq).symm
  have hne : ∀ a ∈ members gs, ¬ some a = some i := fun a ha heq =>
    higs (Option.some.inj heq ▸ ha)
  cases hf with
  | atEnd last =>
      have h1 := hne _ (mem_members_of_mem_heads (List.mem_of_getLast? last))
      simp only [final_linkAt_atEnd, assign_apply, hps, h1, if_false, and_self]
  | @between us vs previous next last first =>
      have hprevious : previous ∈ members us := mem_members_of_mem_heads (List.mem_of_getLast? last)
      have hnext : next ∈ members vs := mem_members_of_mem_heads (List.mem_of_head? first)
      have h1 := hne previous (by rw [members_append]; exact List.mem_append_left _ hprevious)
      have h2 := hne next (by rw [members_append]; exact List.mem_append_right _ hnext)
      simp only [final_linkAt_between, assign_apply, hps, h1, h2, if_false, and_self]
  | @inGroup us vs hd par xs ys ne last parallel parallel' compare =>
      have h1 : ¬ some par = some i := by
        refine hne _ (mem_members.mpr ⟨(hd, xs ++ ys), by simp, ?_⟩)
        exact List.mem_append_left ys (List.mem_of_getLast? last)
      have h2 : ¬ ys.head? = some i := by
        intro hy
        refine hne i (mem_members.mpr ⟨(hd, xs ++ ys), by simp, ?_⟩) rfl
        exact List.mem_append_right (hd :: xs) (List.mem_of_head? hy)
      simp only [final_linkAt_inGroup, assign_apply, hps, h1, h2, if_false, and_self]

/-! ### The way back -/

/-- **The place a station has left** is refused to it, or makes the chain what it was. -/
structure WayBack (s t : Stations) (gs gs' : List Group) (ps fuel : ℕ) (current : ℤ × ℤ) :
    Prop where
  find : stationFind fuel s ps = some (some current)
  back : ∀ place, FoundPlace t ps current.1 current.2 gs' place →
    place = .refused ∧ OldPlaceRefused s ps ∨
      ¬ OldPlaceRefused s ps ∧ place ≠ .refused ∧ Fits t ps gs' place gs ∧ Clean t ps place

/-- A station of the main list has a station before it. -/
theorem ChainOk.prev_ne_none {rest : List ℕ} (h : ChainOk s (us ++ (ps, rest) :: vs))
    (hus : us ≠ []) : s.prev ps ≠ none := by
  rw [h.main_links.1]
  intro hnone
  rw [List.getLast?_eq_none_iff, heads, List.map_eq_nil_iff] at hnone
  exact hus hnone

theorem ChainOk.notMem_before {g : Group} (h : ChainOk s (us ++ g :: vs)) (hi : i ∈ g.1 :: g.2) :
    i ∉ members us := by
  intro hm
  obtain ⟨k, hk, hik⟩ := mem_members.mp hm
  exact members_disjoint h.nodup (Or.inl hk) hik hi

/-- A station that stands alone: its place is refused if it could join the station behind it. -/
theorem wayBack_alone (hus : us ≠ []) (h : ChainOk s (us ++ (ps, []) :: vs))
    (hlinks : LinksOnly s t) (hk : KeepsLinks s t ps) (hn : 2 ≤ s.nstations)
    (hfuel : (members (us ++ (ps, []) :: vs)).length ≤ fuel) :
    WayBack s t (us ++ (ps, []) :: vs) (us ++ vs) ps fuel (us.length, 0) := by
  have hpsu : ps ∉ members us := h.notMem_before List.mem_cons_self
  have hip := isParallel_congr hlinks.config
  have hlen : 0 < us.length := List.length_pos_of_ne_nil hus
  obtain ⟨hpp, hnp⟩ := seg_singleton.mp (h.group (ps, []) (by simp))
  have hnext := h.main_links.2
  refine ⟨(h.upTo hus (.refl s ps) hpsu).find_main hpsu hn ?_, fun place hf => ?_⟩
  · rw [members_append, List.length_append] at hfuel
    omega
  · generalize hgs : us ++ vs = ws at hf
    cases hf with
    | atEnd last pos =>
        obtain rfl : vs = [] := by
          rw [← hgs, List.length_append] at pos
          exact List.length_eq_zero_iff.mp (by push_cast at pos; omega)
        rw [List.append_nil] at hgs
        subst hgs
        refine Or.inr ⟨?_, nofun, .atEnd last, ?_⟩
        · rintro ⟨-, -, hne | ⟨next, hsome, -⟩⟩
          · exact hne hnp
          · rw [hnext] at hsome
            exact nomatch hsome
        · exact hk.clean.mpr ⟨hnext, hnp, hpp⟩
    | @between us' vs' g previous last pos apart =>
        obtain ⟨rfl, rfl⟩ := List.append_inj hgs (by simpa using pos)
        refine Or.inr ⟨?_, nofun, .between last rfl, hk.clean.mpr ⟨hnp, hpp⟩⟩
        rintro ⟨hpar, -, hne | ⟨next, hsome, hpar'⟩⟩
        · exact hne hnp
        · rw [hnext, heads_cons, List.head?_cons, Option.some.injEq] at hsome
          subst hsome
          exact apart ⟨by rwa [hip], by rwa [hip], (by decide : (0 : ℤ) ≠ etNewhead)⟩
    | @refused us' vs' g ne pos joins why =>
        obtain ⟨rfl, rfl⟩ := List.append_inj hgs (by simpa using pos)
        refine Or.inl ⟨rfl, ?_, h.prev_ne_none hus, Or.inr ⟨g.1, hnext, ?_⟩⟩
        · rw [← hip]
          exact joins.1
        · rw [← hip]
          exact joins.2.1
    | inGroup ne pos joins compare nonzero => exact absurd rfl nonzero

/-- The head of a group: its place is refused. -/
theorem wayBack_head {m : ℕ} {ms : List ℕ} (hus : us ≠ [])
    (h : ChainOk s (us ++ (ps, m :: ms) :: vs)) (hlinks : LinksOnly s t) (hn : 2 ≤ s.nstations)
    (hfuel : (members (us ++ (ps, m :: ms) :: vs)).length ≤ fuel) :
    WayBack s t (us ++ (ps, m :: ms) :: vs) (us ++ (m, ms) :: vs) ps fuel (us.length, 0) := by
  have hpsu : ps ∉ members us := h.notMem_before List.mem_cons_self
  have hip := isParallel_congr hlinks.config
  have hlen : 0 < us.length := List.length_pos_of_ne_nil hus
  have hgrp := h.compat (ps, m :: ms) (by simp) (by simp)
  have hpar := (hgrp ps (by simp)).1
  have hjoins : JoinsAt t ps m 0 := by
    refine ⟨?_, ?_, by decide⟩
    · rw [hip, hpar]
    · rw [hip, (hgrp m (by simp)).1]
  refine ⟨(h.upTo hus (.refl s ps) hpsu).find_main hpsu hn ?_, fun place hf => ?_⟩
  · rw [members_append, List.length_append] at hfuel
    omega
  · generalize hgs : us ++ (m, ms) :: vs = ws at hf
    cases hf with
    | atEnd last pos =>
        rw [← hgs, List.length_append, List.length_cons] at pos
        push_cast at pos
        omega
    | @between us' vs' g previous last pos apart =>
        obtain ⟨rfl, heq⟩ := List.append_inj hgs (by simpa using pos)
        obtain ⟨rfl, rfl⟩ := List.cons.inj heq
        exact absurd hjoins apart
    | refused =>
        refine Or.inl ⟨rfl, hpar, h.prev_ne_none hus, Or.inl ?_⟩
        have hnp := (h.group (ps, m :: ms) (by simp)).2.1
        rw [hnp]
        exact Option.some_ne_none m
    | inGroup ne pos joins compare nonzero => exact absurd rfl nonzero

/-- A station behind the head of a group can always go back. -/
theorem wayBack_member {hd : ℕ} {xs ys : List ℕ} (hus : us ≠ [])
    (h : ChainOk s (us ++ (hd, xs ++ ps :: ys) :: vs)) (hlinks : LinksOnly s t)
    (hk : KeepsLinks s t ps) (hn : 2 ≤ s.nstations)
    (hfuel : (members (us ++ (hd, xs ++ ps :: ys) :: vs)).length ≤ fuel) :
    WayBack s t (us ++ (hd, xs ++ ps :: ys) :: vs) (us ++ (hd, xs ++ ys) :: vs) ps fuel
      (us.length, xs.length + 1) := by
  have hthis : (hd, xs ++ ps :: ys) ∈ us ++ (hd, xs ++ ps :: ys) :: vs := by simp
  have hpsu : ps ∉ members us := h.notMem_before (g := (hd, xs ++ ps :: ys)) (by simp)
  have hip := isParallel_congr hlinks.config
  have hlen : 0 < us.length := List.length_pos_of_ne_nil hus
  have hgrp := h.compat _ hthis (by simp)
  obtain ⟨hpar, hcmp⟩ := hgrp ps (by simp)
  have hparhd := (hgrp hd (by simp)).1
  obtain ⟨hprev, hnext⟩ := h.sub _ hthis ps (by simp)
  have hnd : (hd :: (xs ++ ps :: ys)).Nodup := by
    have := h.nodup
    rw [members_append, members_cons, ← List.cons_append, List.nodup_append,
      List.nodup_append] at this
    exact this.2.1.1
  have hhd : hd ≠ ps := by
    rintro rfl
    exact (List.nodup_cons.mp hnd).1 (by simp)
  have hxs : ps ∉ xs := by
    intro hm
    have := (List.nodup_cons.mp hnd).2
    rw [List.nodup_append] at this
    exact this.2.2 ps hm ps (by simp) rfl
  have hjoins : JoinsAt t ps hd (xs.length + 1) := by
    refine ⟨?_, ?_, ?_⟩
    · rw [hip, hpar]
    · rw [hip, hparhd]
    · rw [etNewhead]
      omega
  refine ⟨?_, fun place hf => ?_⟩
  · have hgroup : Fwd s.nextparallel (hd :: xs) (some ps) := by
      have hseg := (h.group _ hthis).fwd
      rw [← List.cons_append, fwd_append, List.head?_cons, Option.some_or] at hseg
      exact hseg.1
    refine (h.upTo hus (.refl s ps) hpsu).find_group hpsu hhd hparhd hgroup hxs hn ?_
    simp only [members_append, members_cons, List.length_append, List.length_cons] at hfuel
    omega
  · have hnot : ¬ OldPlaceRefused s ps := fun hold => hold.2.1 hprev
    generalize hgs : us ++ (hd, xs ++ ys) :: vs = ws at hf
    cases hf with
    | atEnd last pos =>
        rw [← hgs, List.length_append, List.length_cons] at pos
        push_cast at pos
        omega
    | @between us' vs' g previous last pos apart =>
        obtain ⟨rfl, heq⟩ := List.append_inj hgs (by simpa using pos)
        obtain ⟨rfl, rfl⟩ := List.cons.inj heq
        exact absurd hjoins apart
    | @refused us' vs' g ne pos joins why =>
        obtain ⟨rfl, heq⟩ := List.append_inj hgs (by simpa using pos)
        obtain ⟨rfl, rfl⟩ := List.cons.inj heq
        rw [hlinks.config, hcmp] at why
        rcases why with hfalse | hzero
        · exact nomatch hfalse
        · dsimp only at hzero
          omega
    | @inGroup us' vs' hd' par xs' ys' ne pos joins compare nonzero last parallelpos =>
        obtain ⟨rfl, heq⟩ := List.append_inj hgs (by simpa using pos)
        obtain ⟨hgroup, rfl⟩ := List.cons.inj heq
        obtain ⟨rfl, hsplit⟩ := Prod.mk.inj hgroup
        have hlenx : xs.length = xs'.length := by
          rw [clamped_of_mem] at parallelpos
          · dsimp only at parallelpos
            omega
          · rw [← hsplit, List.length_append]
            push_cast
            omega
        obtain ⟨rfl, rfl⟩ := List.append_inj hsplit hlenx
        exact Or.inr ⟨hnot, nofun, .inGroup hus last joins.2.1 joins.1 compare,
          hk.clean.mpr ⟨hnext, hprev⟩⟩

theorem Leaves.wayBack (hl : Leaves ps gs gs') (h : ChainOk s gs) (hlinks : LinksOnly s t)
    (hk : KeepsLinks s t ps) (hn : 2 ≤ s.nstations) (hfuel : (members gs).length ≤ fuel) :
    ∃ current, WayBack s t gs gs' ps fuel current := by
  cases hl with
  | alone ne => exact ⟨_, wayBack_alone ne h hlinks hk hn hfuel⟩
  | head ne => exact ⟨_, wayBack_head ne h hlinks hn hfuel⟩
  | member ne => exact ⟨_, wayBack_member ne h hlinks hk hn hfuel⟩

/-! ### The call as a whole -/

theorem findInGroup_congr (hnp : t.nextparallel = s.nextparallel) (i fuel : ℕ) (counter : ℤ)
    (cur : ℕ) : findInGroup t i fuel counter cur = findInGroup s i fuel counter cur := by
  induction fuel generalizing counter cur with
  | zero => rfl
  | succ fuel ih => simp only [findInGroup, hnp, ih]

/-- `station_find` looks at the forward links only. -/
theorem stationFind_congr (hl : LinksOnly s t) (hn : t.next = s.next)
    (hnp : t.nextparallel = s.nextparallel) (i fuel : ℕ) :
    stationFind fuel t i = stationFind fuel s i := by
  have hmain : ∀ (k : ℕ) (counter : ℤ) (cur : ℕ),
      findInMain t i fuel k counter cur = findInMain s i fuel k counter cur := by
    intro k
    induction k with
    | zero => exact fun _ _ => rfl
    | succ k ih =>
        intro counter cur
        simp only [findInMain, hn, isParallel_congr hl.config, findInGroup_congr hnp, ih]
  rw [stationFind, stationFind, hl.nstations, hmain]

/-- A station that is in no list is not found. -/
theorem ChainOk.stationFind_notMem (h : ChainOk s gs) (hps : ps ∉ members gs)
    (hfuel : (members gs).length ≤ fuel) : stationFind fuel s ps = some none := by
  have h0 : ps ≠ 0 := by
    rintro rfl
    exact hps h.zero_mem
  have hsearch := h.forward.inStationList_eq hfuel h0
  rw [decide_eq_false hps, inStationList, Option.map_eq_some_iff] at hsearch
  obtain ⟨r, hr, hsome⟩ := hsearch
  have hr0 : r = none := by simpa using hsome
  rw [stationFind, if_neg h0, hr, hr0, ite_self]

theorem NewPlaceRefused.pos (h : NewPlaceRefused s gs ps position parallelposition) :
    1 ≤ position := by
  obtain ⟨g, hg, -⟩ := h
  unfold joinedGroup at hg
  split at hg
  case isTrue hpos => exact hpos
  case isFalse => exact nomatch hg

/-- The new place is looked for when the station is out of the chain. -/
theorem StationsOk.refused_iff (h : StationsOk cfg s gs) (hl : Leaves ps gs gs')
    (hfuel : (members gs).length ≤ fuel)
    (hplace : insertPlace fuel (final (stationRemove ps) s) ps position parallelposition =
      some place) :
    place = .refused ↔ NewPlaceRefused s gs' ps position parallelposition := by
  obtain ⟨hchain, hlinks, -, -, hcount, hlen⟩ := h.takenOut hl
  have hfuel' : (members gs').length ≤ fuel := by omega
  obtain ⟨place', hplace', hfound⟩ :=
    insertPlace_found ps position parallelposition hchain hcount hfuel'
  obtain rfl := Option.some.inj (hplace.symm.trans hplace')
  rw [hfound.refused_iff, NewPlaceRefused, NewPlaceRefused, joinedGroup_congr hlinks.config,
    hlinks.config]

theorem atomic_refused (fuel : ℕ) (s : Stations) : Atomic fuel s (some .error) s :=
  Or.inr ⟨⟨.error, nofun, rfl⟩, ⟨rfl, rfl, rfl, rfl⟩, rfl, fun _ => rfl⟩

/-- **The first half of the call** is over: the station is out of the chain. -/
theorem etStationSetposition_eq {id : ℕ} (hid : id ≠ 0) (hlt : id < cfg.nstations)
    (hu : s.InUse id) (hpos : 1 ≤ position ∨ position = etEnd)
    (hpar : ¬ badParallelposition parallelposition)
    (hplace : insertPlace fuel (final (stationRemove id) s) id position parallelposition =
      some place) :
    (place ≠ .refused → value (etStationSetposition cfg fuel id position parallelposition) s =
      some .ok) ∧
    (place = .refused → ∀ current, stationFind fuel s id = some (some current) →
      value (etStationSetposition cfg fuel id position parallelposition) s =
          (value (stationInsert fuel id current.1 current.2) (final (stationRemove id) s)).bind
            (fun _ => some .error) ∧
        final (etStationSetposition cfg fuel id position parallelposition) s =
          final (stationInsert fuel id current.1 current.2) (final (stationRemove id) s)) := by
  obtain ⟨hvalue, hfinal⟩ := stationInsert_eq hplace
  have hend : etEnd = -1 := rfl
  unfold etStationSetposition
  rw [if_neg (by omega), if_neg (by omega), if_neg (by omega), if_neg (by omega), if_neg hpar,
    if_neg (by omega)]
  rw [value_bind, final_bind, value_get, final_get, Int.toNat_natCast, if_neg (not_not.mpr hu)]
  constructor
  · intro hne
    rw [if_neg hne] at hvalue
    rw [value_bind, value_bind, hvalue, if_pos rfl, value_pure]
  · rintro rfl current hfind
    rw [if_pos rfl] at hvalue
    have hfinal' : final (stationInsert fuel id position parallelposition)
        (final (stationRemove id) s) = final (stationRemove id) s := hfinal
    rw [value_bind, final_bind, value_bind, final_bind, hvalue, hfinal', if_neg (by simp), hfind]
    exact ⟨rfl, by simp only [final_bind, final_pure]⟩

/-- **Moving a station is atomic** unless both places are refused: the new one, and the one the
station comes from. -/
theorem setposition_atomic_iff {id : ℕ} (h : StationsOk cfg s gs) (hu : s.InUse id)
    (hfuel : (members gs).length ≤ fuel) :
    Atomic fuel s (value (etStationSetposition cfg fuel id position parallelposition) s)
        (final (etStationSetposition cfg fuel id position parallelposition) s) ↔
      ¬ (¬ badParallelposition parallelposition ∧
        (∃ gs', Leaves id gs gs' ∧ NewPlaceRefused s gs' id position parallelposition) ∧
        OldPlaceRefused s id) := by
  have hid : id ∈ members gs := (h.inUse id).mpr hu
  have hlt : id < cfg.nstations := h.bound id hid
  by_cases hearly : id = 0 ∨ (position < 1 ∧ position ≠ etEnd) ∨ badParallelposition parallelposition
  · -- the call ends before it changes anything
    have hgc : ¬ OldPlaceRefused s 0 := by
      rintro ⟨-, hprev, -⟩
      exact hprev h.chain.forward.gcPrev
    refine iff_of_true ?_ ?_
    · unfold etStationSetposition
      rw [if_neg (by omega)]
      by_cases h0 : id = 0
      · rw [if_pos (by omega)]
        by_cases hp : position = 0
        · exact Or.inl (by simp [hp])
        · simpa [hp] using atomic_refused fuel s
      · rw [if_neg (by omega)]
        split
        · exact atomic_refused fuel s
        case isFalse h1 =>
        split
        · exact atomic_refused fuel s
        case isFalse h2 =>
        rw [if_pos]
        · exact atomic_refused fuel s
        · rcases hearly with h' | h' | h'
          · exact absurd h' h0
          · omega
          · exact h'
    · rintro ⟨hbad, ⟨gs', -, hnew⟩, hold⟩
      rcases hearly with rfl | hpos | hpar
      · exact hgc hold
      · have := hnew.pos
        omega
      · exact hbad hpar
  · rw [not_or, not_or] at hearly
    obtain ⟨h0, hpos, hbad⟩ := hearly
    have hpos' : 1 ≤ position ∨ position = etEnd := by omega
    obtain ⟨gs', hl⟩ := h.chain.exists_leaves hid h0
    obtain ⟨hchain, hlinks, hk, hid', hcount, hlen⟩ := h.takenOut hl
    have htwo : 2 ≤ s.nstations := by
      have hzero : 0 < (members gs').length := List.length_pos_of_mem hchain.zero_mem
      rw [h.count]
      omega
    have hfuel' : (members gs').length ≤ fuel := by omega
    obtain ⟨place, hplace, -⟩ :=
      insertPlace_found id position parallelposition hchain hcount hfuel'
    obtain ⟨hgo, hreturn⟩ := etStationSetposition_eq h0 hlt hu hpos' hbad hplace
    by_cases hrefused : place = .refused
    case neg =>
      refine iff_of_true (Or.inl (hgo hrefused)) ?_
      rintro ⟨-, ⟨gs'', hl', hnew⟩, -⟩
      exact hrefused ((h.refused_iff hl' hfuel hplace).mpr hnew)
    case pos =>
      have hnew := (h.refused_iff hl hfuel hplace).mp hrefused
      obtain ⟨current, hway⟩ := hl.wayBack h.chain hlinks hk htwo hfuel
      obtain ⟨hv, hf⟩ := hreturn hrefused current hway.find
      obtain ⟨place', hplace', hfound'⟩ :=
        insertPlace_found id current.1 current.2 hchain hcount hfuel'
      obtain ⟨hvalue', hfinal'⟩ := stationInsert_eq hplace'
      rw [hv, hf, hvalue', hfinal', Option.bind_some]
      rcases hway.back place' hfound' with ⟨rfl, hold⟩ | ⟨hold, -, hfits, hclean⟩
      · -- the station stays out of the chain
        refine iff_of_false ?_ (not_not.mpr ⟨hbad, ⟨gs', hl, hnew⟩, hold⟩)
        rintro (hok | ⟨-, -, -, hfind⟩)
        · exact nomatch hok
        · have hlost := hchain.stationFind_notMem hid' hfuel'
          have hsame := (hfind id).trans hway.find
          exact nomatch hlost.symm.trans hsame
      · -- the chain is the old one
        refine iff_of_true (Or.inr ⟨⟨.error, nofun, rfl⟩, ?_⟩) fun hall => hold hall.2.2
        obtain ⟨-, hchain', hlinks'⟩ := wp_linkAt hchain hid' hfits hclean
        have hlinksAll := hlinks.trans hlinks'
        have hsame : ∀ i, (final (linkAt id place') (final (stationRemove id) s)).next i = s.next i ∧
            (final (linkAt id place') (final (stationRemove id) s)).prev i = s.prev i ∧
            (final (linkAt id place') (final (stationRemove id) s)).nextparallel i =
              s.nextparallel i ∧
            (final (linkAt id place') (final (stationRemove id) s)).prevparallel i =
              s.prevparallel i := by
          intro i
          by_cases hi : i ∈ members gs
          · exact h.chain.links_unique hchain' hi
          · obtain ⟨h1, h2, h3, h4⟩ := h.chain.stationRemove_outside hid i hi
            obtain ⟨h1', h2', h3', h4'⟩ := hfits.linkAt_outside i hi
            exact ⟨h1'.trans h1, h2'.trans h2, h3'.trans h3, h4'.trans h4⟩
        have hnext := funext fun i => (hsame i).1
        have hnp := funext fun i => (hsame i).2.2.1
        exact ⟨⟨hnext, funext fun i => (hsame i).2.1, hnp, funext fun i => (hsame i).2.2.2⟩,
          hchain'.tail.trans h.chain.tail.symm,
          fun i => stationFind_congr hlinksAll hnext hnp i fuel⟩

end Moving

/-- `"B"` is asked to join no group at the place of `"A"`, and stays where it is. -/
theorem setposition_atomic_example :
    (∃ gs, StationsOk threeStations tableGroup gs ∧ (members gs).length ≤ 4) ∧
      tableGroup.InUse 3 ∧
      Atomic 4 tableGroup (value (etStationSetposition threeStations 4 3 2 0) tableGroup)
        (final (etStationSetposition threeStations 4 3 2 0) tableGroup) := by
  obtain ⟨gs, hgs⟩ := stationsOk_tableGroup
  have hu : tableGroup.InUse 3 := by decide
  refine ⟨⟨gs, hgs, hgs.length_le⟩, hu, (setposition_atomic_iff hgs hu hgs.length_le).mpr ?_⟩
  rintro ⟨-, -, -, hprev, -⟩
  exact hprev (by decide)

/-- **A station is lost.**  `"A"` heads the group of `"B"`, and is asked to move to the place
that it has.  The call fails, and `"A"` is in no list afterwards. -/
theorem setposition_loses_station :
    (∃ gs, StationsOk threeStations tableGroup gs) ∧ tableGroup.InUse 2 ∧ stationFind 4 tableGroup 2 = some (some (2, 0)) ∧
      value (etStationSetposition threeStations 4 2 2 0) tableGroup = some .error ∧
      (final (etStationSetposition threeStations 4 2 2 0) tableGroup).InUse 2 ∧
      stationFind 4 (final (etStationSetposition threeStations 4 2 2 0) tableGroup) 2 =
        some none ∧
      tableGroup.next 1 = some 2 ∧
      (final (etStationSetposition threeStations 4 2 2 0) tableGroup).next 1 = some 3 :=
  ⟨stationsOk_tableGroup, by decide⟩

end EventTransfer
