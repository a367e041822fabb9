import EventTransfer.Conductor

/-!
# Round-robin groups

A conductor deals out the events that are left to the active members of a round-robin group one
by one, beginning behind the member that got the last event of the batch before.  The member is
remembered by its flag `waslast`, and the events for each member are collected beforehand, by a
loop for each.

When nothing of the batch has been put before, the loop goes through the array in steps of the
number of members, and the events are dealt out as they should.  Otherwise the loop for number
`i` begins at index `i` of the array, and not at the `i`-th event that is left: if an event
before it has been put elsewhere, the members get some events twice and others not at all
(`rrobinWrites_deals_iff`).
-/

namespace EventTransfer

/-- **The order in which a round-robin group is dealt to**: the active members in turn,
beginning behind the one marked `waslast`, where one member is, and with the first where none
is. -/
structure Stations.InTurn (s : Stations) (members order : List ℕ) : Prop where
  rotated : order.IsRotated (s.actives members)
  behind : ∀ before ps after, members = before ++ ps :: after → s.waslast ps = true →
    (∀ r ∈ before ++ after, s.waslast r = false) → order = s.actives (after ++ before ++ [ps])
  first : (∀ ps ∈ members, s.waslast ps = false) → order = s.actives members

/-- **The events that are left are dealt out one by one**: each goes to exactly one of the
stations, and number `i` of `n` gets the `i`-th, `(i + n)`-th, `(i + 2 * n)`-th and so on, in
order. -/
structure DealsRound (order left : List ℕ) (writes : List Write) : Prop where
  perm : (order.flatMap (written writes)).Perm left
  nth : ∀ i ps, order[i]? = some ps → written writes ps = everyNth order.length i left
  only : ∀ w ∈ writes, w.1 ∈ order

/-! ### The order -/

section Order

variable {s : Stations} {members : List ℕ}

/-- What the search reads of a station.  It is the same in the Java system. -/
def Stations.view (s : Stations) (ps : ℕ) : JavaStation where
  active := s.status ps = .active
  selectMode := .rrobin
  blockMode := .blocking
  prescale := 1
  cue := 0
  wasLast := s.waslast ps
  input := []
  eventsTry := 0
  prescale_pos := Nat.one_pos

theorem lookForStart_eq (s : Stations) (members : List ℕ) (r : Option ℕ × Bool) :
    s.lookForStart members r = findStart s.view members r := by
  induction members generalizing r with
  | nil => rfl
  | cons ps members ih =>
      unfold Stations.lookForStart findStart
      dsimp only
      rw [ih]
      simp only [Stations.view, decide_eq_true_eq]

theorem dealOrder_eq (s : Stations) (members : List ℕ) :
    s.dealOrder members = EventTransfer.dealOrder s.view members := by
  have hstart : s.startStation members = EventTransfer.startStation s.view members := by
    unfold Stations.startStation EventTransfer.startStation
    rw [lookForStart_eq]
    rfl
  unfold Stations.dealOrder EventTransfer.dealOrder
  rw [hstart]
  rfl

/-- **The order is the one asked for.** -/
theorem Stations.inTurn_dealOrder (h : s.actives members ≠ []) (hnodup : members.Nodup) :
    s.InTurn members (s.dealOrder members) := by
  obtain ⟨hrotated, hbehind, hfirst⟩ := @dealsInTurn_dealOrder s.view members h hnodup
  rw [dealOrder_eq]
  exact ⟨hrotated, hbehind, hfirst⟩

end Order

/-! ### The events of one member -/

section Collect

variable {n : ℕ} {batch : Batch}

/-- **The loop finds** every `n`-th of the events that have not been put, as many as asked
for. -/
theorem collect_eq (hn : 0 < n) (skip num : ℕ) (batch : Batch) :
    collect n skip (num + 1 : ℕ) batch =
      (List.range (num + 1)).filterMap fun j => (unput batch)[skip + j * n]? := by
  induction batch generalizing skip num with
  | nil => simp [collect]
  | cons x batch ih =>
      obtain ⟨event, put⟩ := x
      unfold collect
      cases put with
      | true => exact ih skip num
      | false =>
          rw [if_neg Bool.false_ne_true, unput_cons_false]
          cases skip with
          | succ skip =>
              rw [if_pos (Nat.succ_pos skip), Nat.add_sub_cancel, ih]
              refine List.filterMap_congr fun j _ => ?_
              rw [show skip + 1 + j * n = (skip + j * n) + 1 by omega, List.getElem?_cons_succ]
          | zero =>
              rw [if_neg (Nat.lt_irrefl 0), List.range_succ_eq_map, List.filterMap_cons,
                List.filterMap_map]
              simp only [Nat.zero_mul, Nat.zero_add, List.getElem?_cons_zero]
              cases num with
              | zero => simp
              | succ num =>
                  have hsub : ((num + 1 + 1 : ℕ) : ℤ) - 1 = (num + 1 : ℕ) := by omega
                  rw [hsub, if_neg (by omega), ih]
                  refine congrArg (event :: ·) (List.filterMap_congr fun j _ => ?_)
                  have hmul : (j + 1) * n = (n - 1 + j * n) + 1 := by
                    rw [Nat.add_mul, Nat.one_mul]
                    omega
                  simp only [Function.comp_apply, Nat.succ_eq_add_one, hmul,
                    List.getElem?_cons_succ]

/-- How many events before index `i` have not been put. -/
def unputBefore (batch : Batch) (i : ℕ) : ℕ := (unput (batch.take i)).length

theorem unputBefore_le (batch : Batch) (i : ℕ) : unputBefore batch i ≤ i := by
  have := (unput_sublist (batch.take i)).length_le
  rw [List.length_map, List.length_take] at this
  unfold unputBefore
  omega

theorem unputBefore_succ (batch : Batch) (i : ℕ) :
    unputBefore batch i ≤ unputBefore batch (i + 1) := by
  unfold unputBefore
  rw [List.take_add_one, unput_append, List.length_append]
  exact Nat.le_add_right _ _

/-- They are all, if none has been put. -/
theorem unputBefore_eq_iff {i : ℕ} (hi : i ≤ batch.length) :
    unputBefore batch i = i ↔ ∀ x ∈ batch.take i, x.2 = false := by
  unfold unputBefore unput
  have hlen : (batch.take i).length = i := by rw [List.length_take]; omega
  rw [List.length_map]
  conv_lhs => rhs; rw [← hlen]
  rw [List.length_filter_eq_length_iff]
  simp

theorem unput_drop (batch : Batch) (i : ℕ) :
    unput (batch.drop i) = (unput batch).drop (unputBefore batch i) := by
  conv_rhs => rw [← List.take_append_drop i batch, unput_append]
  rw [unputBefore, List.take_append_drop, List.drop_left]

/-- What number `i` of `n` stations gets: of the events that have not been put every `n`-th,
from the first one at index `i` of the array or behind it. -/
def piece (n : ℕ) (batch : Batch) (i : ℕ) : List ℕ :=
  (List.range (roundShare n (unput batch).length i)).filterMap fun j =>
    (unput batch)[unputBefore batch i + j * n]?

theorem roundShare_pos_iff {i len : ℕ} (hi : i < n) : 0 < roundShare n len i ↔ i < len := by
  rw [lt_roundShare_iff hi, Nat.zero_mul, Nat.add_zero]

/-- The code's way to collect them. -/
theorem roundEvents_eq {firstimethruloop : Bool}
    (hfirst : firstimethruloop = true → ∀ x ∈ batch, x.2 = false) {i : ℕ} (hi : i < n)
    (hlen : i < (unput batch).length) :
    roundEvents firstimethruloop batch n (roundShare n (unput batch).length i) i =
      piece n batch i := by
  unfold roundEvents piece
  split
  case isTrue hf =>
    have hall := hfirst hf
    have hle := (unput_sublist batch).length_le
    rw [List.length_map] at hle
    rw [(unputBefore_eq_iff (by omega)).mpr fun x hx => hall x (List.mem_of_mem_take hx),
      unput_eq_map hall]
  case isFalse =>
    obtain ⟨num, hnum⟩ := Nat.exists_eq_add_of_le' ((roundShare_pos_iff hi).mpr hlen)
    rw [hnum, collect_eq (Nat.zero_lt_of_lt hi), unput_drop]
    refine List.filterMap_congr fun j _ => ?_
    rw [List.getElem?_drop, Nat.zero_add]

/-- None of them is missing. -/
theorem length_piece {i : ℕ} (hi : i < n) :
    (piece n batch i).length = roundShare n (unput batch).length i := by
  unfold piece
  have hmem : ∀ j ∈ List.range (roundShare n (unput batch).length i),
      ((unput batch)[unputBefore batch i + j * n]?).isSome := by
    intro j hj
    rw [List.mem_range, lt_roundShare_iff hi] at hj
    have := unputBefore_le batch i
    rw [List.getElem?_eq_getElem (by omega)]
    rfl
  rw [List.length_filterMap_eq_countP, List.countP_eq_length.mpr hmem, List.length_range]

/-- Where nothing before index `i` has been put elsewhere, they are the right ones. -/
theorem piece_eq_everyNth {i : ℕ} (hi : i < n) (h : i < (unput batch).length →
    unputBefore batch i = i) : piece n batch i = everyNth n i (unput batch) := by
  by_cases hlen : i < (unput batch).length
  · rw [← everyNth_eq_filterMap hi]
    unfold piece
    rw [h hlen]
  · have hzero : roundShare n (unput batch).length i = 0 := by
      by_contra hne
      exact hlen ((roundShare_pos_iff hi).mp (Nat.pos_of_ne_zero hne))
    have hnone : ∀ k, k % n = i → ¬ k < (unput batch).length := fun k hk hlt => by
      have := Nat.mod_le k n
      omega
    unfold piece everyNth
    rw [hzero, List.filter_eq_nil_iff.mpr fun k hk => by
      rw [decide_eq_true_eq]
      exact fun heq => hnone k heq (List.mem_range.mp hk)]
    rfl

end Collect

/-! ### What is written -/

section Written

variable {order : List ℕ} {firstimethruloop : Bool} {batch : Batch}

/-- Events behind those that are handed out do not matter. -/
theorem segment_append (zs : List (ℕ × ℕ)) {events : List ℕ} (extra : List ℕ) (ps : ℕ)
    (h : (zs.map Prod.snd).sum ≤ events.length) :
    segment zs (events ++ extra) ps = segment zs events ps := by
  induction zs generalizing events with
  | nil => rfl
  | cons z zs ih =>
      obtain ⟨r, num⟩ := z
      rw [List.map_cons, List.sum_cons] at h
      dsimp only at h
      unfold segment
      rw [List.take_append_of_le_length (by omega), List.drop_append_of_le_length (by omega),
        ih (by rw [List.length_drop]; omega)]

/-- Members that get nothing come last, whatever has been collected for them. -/
theorem flatMap_range_prefix (f g : ℕ → List ℕ) (q n : ℕ) (heq : ∀ i < q, i < n → f i = g i)
    (hnil : ∀ i < n, q ≤ i → g i = []) :
    ∃ extra, (List.range n).flatMap f = (List.range n).flatMap g ++ extra := by
  induction n with
  | zero => exact ⟨[], rfl⟩
  | succ n ih =>
      obtain ⟨extra, hextra⟩ := ih (fun i hi hn => heq i hi (by omega)) fun i hi => hnil i (by omega)
      rw [List.range_succ, List.flatMap_append, List.flatMap_append, List.flatMap_singleton,
        List.flatMap_singleton]
      rcases Nat.lt_or_ge n q with hn | hn
      · have hsame : (List.range n).flatMap f = (List.range n).flatMap g :=
          List.flatMap_congr fun i hi => by
            have := List.mem_range.mp hi
            exact heq i (by omega) (by omega)
        exact ⟨[], by rw [hsame, heq n hn (by omega), List.append_nil]⟩
      · refine ⟨extra ++ f n, ?_⟩
        rw [hextra, hnil n (by omega) hn, List.append_nil, List.append_assoc]

/-- **Each member gets its piece.** -/
theorem map_written_rrobinWrites (hnodup : order.Nodup)
    (hfirst : firstimethruloop = true → ∀ x ∈ batch, x.2 = false) :
    order.map (written (rrobinWrites order firstimethruloop batch (unput batch).length)) =
      (List.range order.length).map (piece order.length batch) := by
  set n := order.length with hn
  set shares := (List.range n).map (roundShare n (unput batch).length) with hshares
  set pieces := (List.range n).map (piece n batch) with hpieces
  have hlengths : pieces.map List.length = shares := by
    rw [hpieces, List.map_map]
    exact List.map_congr_left fun i hi => length_piece (List.mem_range.mp hi)
  have hplen : order.length = pieces.length := by simp [hpieces, hn]
  have hfst : (order.zip shares).map Prod.fst = order :=
    List.map_fst_zip (by simp [hshares, hn])
  have hsnd : (order.zip shares).map Prod.snd = shares :=
    List.map_snd_zip (by simp [hshares, hn])
  obtain ⟨extra, hextra⟩ := flatMap_range_prefix
    (fun i => roundEvents firstimethruloop batch n (roundShare n (unput batch).length i) i)
    (piece n batch) (unput batch).length n (fun i hi hin => roundEvents_eq hfirst hin hi)
    fun i hi hle => by
      rw [← List.length_eq_zero_iff, length_piece hi]
      by_contra hne
      have := (roundShare_pos_iff hi).mp (Nat.pos_of_ne_zero hne)
      omega
  have hflatten : (List.range n).flatMap (piece n batch) = pieces.flatten := List.flatMap_def
  have hsum : shares.sum ≤ pieces.flatten.length := by
    rw [List.length_flatten, hlengths]
  have hgiven := segment_flatten hnodup hplen
  rw [hlengths] at hgiven
  refine (List.map_congr_left fun ps _ => ?_).trans hgiven
  unfold rrobinWrites
  dsimp only
  rw [← hn, ← hshares, hextra, hflatten, written_cutWrites (by rwa [hfst]),
    segment_append _ _ _ (by rwa [hsnd])]

theorem map_fst_rrobinWrites (order : List ℕ) (firstimethruloop : Bool) (batch : Batch)
    (eventsLeft : ℕ) :
    ((rrobinWrites order firstimethruloop batch eventsLeft).map Prod.fst).Sublist order := by
  have hsub := map_fst_cutWrites
    (order.zip ((List.range order.length).map (roundShare order.length eventsLeft)))
    ((List.range order.length).flatMap fun i => roundEvents firstimethruloop batch order.length
      (roundShare order.length eventsLeft i) i)
  rwa [List.map_fst_zip (by simp)] at hsub

/-- **The events are dealt out one by one** where the pieces are the right ones. -/
theorem dealsRound_of_pieces (hne : order ≠ []) (hnodup : order.Nodup)
    (hfirst : firstimethruloop = true → ∀ x ∈ batch, x.2 = false)
    (hpieces : ∀ i < order.length, i < (unput batch).length → unputBefore batch i = i) :
    DealsRound order (unput batch)
      (rrobinWrites order firstimethruloop batch (unput batch).length) := by
  have hwritten := map_written_rrobinWrites hnodup hfirst
  have hpiece : (List.range order.length).map (piece order.length batch) =
      (List.range order.length).map fun i => everyNth order.length i (unput batch) :=
    List.map_congr_left fun i hi => by
      have hin := List.mem_range.mp hi
      exact piece_eq_everyNth hin (hpieces i hin)
  rw [hpiece] at hwritten
  refine ⟨?_, fun i ps hi => ?_, fun w hw => ?_⟩
  · rw [List.flatMap_def, hwritten, ← List.flatMap_def]
    exact flatMap_everyNth_perm (List.length_pos_iff.mpr hne) (unput batch)
  · obtain ⟨hin, -⟩ := List.getElem?_eq_some_iff.mp hi
    have hget := congrArg (·[i]?) hwritten
    simp only [List.getElem?_map, hi, Option.map_some, List.getElem?_range hin,
      Option.some.injEq] at hget
    exact hget
  · exact (map_fst_rrobinWrites order firstimethruloop batch _).subset (List.mem_map_of_mem hw)

/-- **Nothing before index `i` has been put elsewhere**, for any member that is to get
something, if the events are dealt out at all. -/
theorem unputBefore_eq_of_perm (hnodup : order.Nodup) (hbatch : (batch.map Prod.fst).Nodup)
    (hfirst : firstimethruloop = true → ∀ x ∈ batch, x.2 = false)
    (hperm : (order.flatMap
      (written (rrobinWrites order firstimethruloop batch (unput batch).length))).Perm
        (unput batch)) {i : ℕ} (hi : i < order.length) (hlen : i < (unput batch).length) :
    unputBefore batch i = i := by
  rw [List.flatMap_def, map_written_rrobinWrites hnodup hfirst] at hperm
  have hunput : (unput batch).Nodup := (unput_sublist batch).nodup hbatch
  have hpieces := (hperm.nodup_iff).mpr hunput
  rw [← List.flatMap_def, List.nodup_flatMap] at hpieces
  have hdisjoint := hpieces.2
  -- the event that number `j` gets first
  have hhead : ∀ j, j < order.length → j < (unput batch).length →
      (unput batch)[unputBefore batch j]? ≠ none ∧
        ∀ e, (unput batch)[unputBefore batch j]? = some e → e ∈ piece order.length batch j := by
    intro j hj hjlen
    have hle := unputBefore_le batch j
    refine ⟨?_, fun e he => ?_⟩
    · rw [List.getElem?_eq_getElem (by omega)]
      exact Option.some_ne_none _
    · refine List.mem_filterMap.mpr ⟨0, List.mem_range.mpr ((roundShare_pos_iff hj).mpr hjlen), ?_⟩
      rw [Nat.zero_mul, Nat.add_zero, he]
  induction i with
  | zero => exact Nat.le_zero.mp (unputBefore_le batch 0)
  | succ i ih =>
      have hbefore := ih (by omega) (by omega)
      have hle := unputBefore_le batch (i + 1)
      have hmono := unputBefore_succ batch i
      by_contra hne
      -- numbers `i` and `i + 1` begin with the same event
      have hsame : unputBefore batch (i + 1) = unputBefore batch i := by omega
      obtain ⟨hsome, hmem⟩ := hhead i (by omega) (by omega)
      obtain ⟨-, hmem'⟩ := hhead (i + 1) hi hlen
      obtain ⟨e, he⟩ := Option.ne_none_iff_exists'.mp hsome
      have hpair := List.pairwise_iff_getElem.mp hdisjoint i (i + 1) (by simp; omega) (by simpa using hi)
        (Nat.lt_succ_self i)
      simp only [List.getElem_range] at hpair
      exact hpair (hmem e he) (hmem' e (by rw [hsame]; exact he))

end Written

/-! ### The group -/

/-- **A round-robin group is dealt to as it should be** if and only if nothing of the batch has
been put elsewhere when the pass comes to it, or at least nothing at the places of the array
before the last at which a member's loop begins: with `n` active members and `m` events left
these are the first `min n m - 1` places. -/
theorem rrobinWrites_deals_iff {s : Stations} {members : List ℕ} {firstimethruloop : Bool}
    {batch : Batch} (hne : s.actives members ≠ []) (hnodup : members.Nodup)
    (hbatch : (batch.map Prod.fst).Nodup)
    (hfirst : firstimethruloop = true → ∀ x ∈ batch, x.2 = false) :
    (∃ order, s.InTurn members order ∧ DealsRound order (unput batch)
        (rrobinWrites (s.dealOrder members) firstimethruloop batch (unput batch).length)) ↔
      ∀ x ∈ batch.take (min (s.actives members).length (unput batch).length - 1), x.2 = false := by
  have hturn := Stations.inTurn_dealOrder hne hnodup
  have hperm := hturn.rotated.perm
  have hlen := hperm.length_eq
  have hnodup' : (s.dealOrder members).Nodup := hperm.nodup_iff.mpr (hnodup.filter _)
  have hle := (unput_sublist batch).length_le
  rw [List.length_map] at hle
  constructor
  · rintro ⟨order, hturn', hdeals⟩
    have horder : (s.dealOrder members).Perm order := hperm.trans hturn'.rotated.perm.symm
    have hall := (horder.flatMap_right _).trans hdeals.perm
    intro x hx
    rcases Nat.eq_zero_or_pos (min (s.actives members).length (unput batch).length - 1) with h0 | hpos
    · rw [h0] at hx
      exact absurd hx (by simp)
    · have hbefore := unputBefore_eq_of_perm hnodup' hbatch hfirst hall
        (i := min (s.actives members).length (unput batch).length - 1) (by omega) (by omega)
      exact (unputBefore_eq_iff (by omega)).mp hbefore x hx
  · intro h
    refine ⟨_, hturn, dealsRound_of_pieces ?_ hnodup' hfirst fun i hi hilen => ?_⟩
    · rw [← List.length_pos_iff, hlen]
      exact List.length_pos_iff.mpr hne
    · refine (unputBefore_eq_iff (by omega)).mpr fun x hx => h x ?_
      exact (List.take_sublist_take_left (by omega)).subset hx

/-- A table in which every station is active. -/
def allActive : Stations := { Stations.blank with status := fun _ => .active }

/-- Three members get five events, of which one behind the others is elsewhere. -/
theorem rrobinWrites_deals_example :
    ∃ order, allActive.InTurn [1, 2, 3] order ∧
      DealsRound order [10, 11, 12, 13]
        (rrobinWrites (allActive.dealOrder [1, 2, 3]) false
          [(10, false), (11, false), (12, false), (9, true), (13, false)] 4) :=
  (@rrobinWrites_deals_iff allActive [1, 2, 3] false
    [(10, false), (11, false), (12, false), (9, true), (13, false)] (by decide) (by decide)
    (by decide) fun h => absurd h Bool.false_ne_true).mpr (by decide)

/-- **The first of three events has been put elsewhere**, and two members are to get the others:
each of them gets the second event, and nobody the third. -/
theorem rrobin_deals_twice :
    rrobinWrites (allActive.dealOrder [1, 2]) false [(10, true), (11, false), (12, false)] 2 =
        [(1, [11]), (2, [11])] ∧
      ¬ ∃ order, allActive.InTurn [1, 2] order ∧ DealsRound order [11, 12]
        (rrobinWrites (allActive.dealOrder [1, 2]) false
          [(10, true), (11, false), (12, false)] 2) := by
  have hwrites : rrobinWrites (allActive.dealOrder [1, 2]) false
      [(10, true), (11, false), (12, false)] 2 = [(1, [11]), (2, [11])] := by decide
  refine ⟨hwrites, ?_⟩
  rw [hwrites]
  rintro ⟨order, -, hdeals⟩
  have hmem : 12 ∈ order.flatMap (written [(1, [11]), (2, [11])]) :=
    hdeals.perm.mem_iff.mpr (by decide)
  obtain ⟨ps, -, hps⟩ := List.mem_flatMap.mp hmem
  obtain ⟨w, hw, h12⟩ := List.mem_flatMap.mp hps
  have hw := (List.mem_filter.mp hw).1
  simp only [List.mem_cons, List.not_mem_nil, or_false] at hw
  rcases hw with rfl | rfl
  · exact absurd h12 (by decide)
  · exact absurd h12 (by decide)

end EventTransfer
