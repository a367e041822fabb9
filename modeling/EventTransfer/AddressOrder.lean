import EventTransfer.Lib.Wire

/-!
# The order of a server's addresses

`et_orderIpAddrs` (`et_network.c`): the addresses of a system that has answered are put in the
order in which a client should try them, those on the preferred subnet first, those on other local
subnets next, and all others last.

The loop that compares an address with the local interfaces ends at the first interface without a
broadcast address, where it should go on to the next one.  So the interfaces are split in two:
those before it are `visible`, and an address on the subnet of a later one is taken for one that is
not local (`Unseen`).

* `itemsOf_eq` — what the two lists hold at the end, for every response.
* `ordersWell_iff` — the order is as it should be exactly when the unseen addresses are in it
  already.
-/

namespace EventTransfer

namespace AddressOrder

open Wire

/-- `CODA_IPADDRSTRLEN`. -/
def codaIpAddrStrLen : ℕ := 16

/-- An address of the response and its broadcast address, `none` being `NULL`. -/
structure Entry where
  ipAddress : Str codaIpAddrStrLen
  bcastAddress : Option CStr
  deriving DecidableEq

/-- The loop over the local interfaces, given by their broadcast addresses, which may be empty:
`onSameSubnet` and `onPreferredSubnet`. -/
def compareLocal (bcastAddress preferredSubnet : Option CStr) : List CStr → Bool × Bool
  | [] => (false, false)
  | broadcast :: next =>
      if broadcast.bytes.length < 1 ∨ bcastAddress = none then (false, false)
      else if some broadcast = bcastAddress then
        (true, preferredSubnet ≠ none ∧ preferredSubnet = bcastAddress)
      else compareLocal bcastAddress preferredSubnet next

/-- The two lists while they grow.  An item stands for the entry it was made from, and holds its
address; the pointers to the last items are the ends of the lists. -/
structure Items where
  pref : List Entry
  other : List Entry

/-- The rest of the body of the loop over the addresses. -/
def Items.add (items : Items) (listItem : Entry) (onSameSubnet onPreferredSubnet : Bool) : Items :=
  if onPreferredSubnet ∧ items.pref = [] then { items with pref := [listItem] }
  else if ¬onPreferredSubnet ∧ items.other = [] then { items with other := [listItem] }
  else if onPreferredSubnet then { items with pref := listItem :: items.pref }
  else if onSameSubnet then { items with other := listItem :: items.other }
  else { items with other := items.other ++ [listItem] }

section

variable (netinfo : List CStr) (preferredSubnet : Option CStr)

/-- The loop over the addresses. -/
def itemsOf (response : List Entry) : Items :=
  response.foldl
    (fun items e =>
      let (onSameSubnet, onPreferredSubnet) := compareLocal e.bcastAddress preferredSubnet netinfo
      items.add e onSameSubnet onPreferredSubnet)
    ⟨[], []⟩

/-- The list that is returned, `NULL` being the empty one; every allocation succeeds. -/
def etOrderIpAddrs (response : Option (List Entry)) : List Entry :=
  match response with
  | none => []
  | some response =>
      let items := itemsOf netinfo preferredSubnet response
      if items.pref = [] ∧ items.other = [] then []
      else if items.pref ≠ [] ∧ items.other = [] then items.pref
      else if items.pref = [] ∧ items.other ≠ [] then items.other
      else items.pref ++ items.other

/-! ## What the loops compute -/

/-- The broadcast addresses the inner loop gets to see. -/
def visible : List CStr := netinfo.takeWhile fun broadcast => ¬broadcast.bytes.length < 1

/-- The address is on a subnet of the interfaces given. -/
def OnSubnetOf (netinfo : List CStr) (e : Entry) : Prop := ∃ b ∈ netinfo, e.bcastAddress = some b

instance (e : Entry) : Decidable (OnSubnetOf netinfo e) :=
  inferInstanceAs (Decidable (∃ b ∈ netinfo, _))

/-- The address is not on the subnet of an interface that is seen. -/
def Unseen (e : Entry) : Prop := ¬OnSubnetOf (visible netinfo) e

instance (e : Entry) : Decidable (Unseen netinfo e) := inferInstanceAs (Decidable (¬_))

/-- The address is on the preferred subnet. -/
def IsPreferred (e : Entry) : Prop := preferredSubnet ≠ none ∧ preferredSubnet = e.bcastAddress

instance (e : Entry) : Decidable (IsPreferred preferredSubnet e) :=
  inferInstanceAs (Decidable (_ ∧ _))

theorem compareLocal_eq (e : Entry) :
    compareLocal e.bcastAddress preferredSubnet netinfo =
      (decide (¬Unseen netinfo e),
        decide (¬Unseen netinfo e ∧ IsPreferred preferredSubnet e)) := by
  simp only [Unseen, not_not]
  induction netinfo with
  | nil => simp [compareLocal, visible, OnSubnetOf]
  | cons broadcast next ih =>
      by_cases hempty : broadcast.bytes.length < 1
      · have hvisible : visible (broadcast :: next) = [] := by
          rw [visible, List.takeWhile_cons_of_neg (by simpa using hempty)]
        have hnone : ¬OnSubnetOf (visible (broadcast :: next)) e := by
          simp [OnSubnetOf, hvisible]
        simp only [compareLocal, hempty, true_or, if_true, hnone, false_and, decide_false]
      · have hvisible : visible (broadcast :: next) = broadcast :: visible next := by
          rw [visible, List.takeWhile_cons_of_pos (by simpa using hempty)]
          rfl
        rw [compareLocal, hvisible]
        cases hb : e.bcastAddress with
        | none => simp [OnSubnetOf, hb]
        | some b =>
            rw [hb] at ih
            by_cases heq : broadcast = b
            · subst heq
              simp [hempty, OnSubnetOf, IsPreferred, hb]
            · have hcons : OnSubnetOf (broadcast :: visible next) e ↔
                  OnSubnetOf (visible next) e := by
                simp [OnSubnetOf, hb, Ne.symm heq]
              simp only [hempty, false_or, Option.some_inj, heq, if_false, reduceCtorEq, hcons]
              exact ih

theorem add_preferred (items : Items) (e : Entry) (same : Bool) :
    items.add e same true = { items with pref := e :: items.pref } := by
  obtain ⟨pref, other⟩ := items
  cases pref <;> simp [Items.add]

theorem add_same (items : Items) (e : Entry) :
    items.add e true false = { items with other := e :: items.other } := by
  obtain ⟨pref, other⟩ := items
  cases other <;> simp [Items.add]

theorem add_last (items : Items) (e : Entry) :
    items.add e false false = { items with other := items.other ++ [e] } := by
  obtain ⟨pref, other⟩ := items
  cases other <;> simp [Items.add]

/-- **The two lists** after the loop: what goes to a head is in reverse, and the unseen addresses
are at the end in their order. -/
theorem itemsOf_eq (response : List Entry) :
    itemsOf netinfo preferredSubnet response =
      ⟨(response.filter fun e => ¬Unseen netinfo e ∧ IsPreferred preferredSubnet e).reverse,
        (response.filter fun e => ¬Unseen netinfo e ∧ ¬IsPreferred preferredSubnet e).reverse ++
          response.filter fun e => Unseen netinfo e⟩ := by
  induction response using List.reverseRecOn with
  | nil => rfl
  | append_singleton response e ih =>
      have hstep : itemsOf netinfo preferredSubnet (response ++ [e]) =
          (itemsOf netinfo preferredSubnet response).add e (decide (¬Unseen netinfo e))
            (decide (¬Unseen netinfo e ∧ IsPreferred preferredSubnet e)) := by
        rw [itemsOf, List.foldl_append, List.foldl_cons, List.foldl_nil, compareLocal_eq]
        rfl
      rw [hstep, ih]
      by_cases hunseen : Unseen netinfo e
      · simp [hunseen, add_last]
      · by_cases hpref : IsPreferred preferredSubnet e
        · simp [hunseen, hpref, add_preferred]
        · simp [hunseen, hpref, add_same]

theorem etOrderIpAddrs_eq (response : List Entry) :
    etOrderIpAddrs netinfo preferredSubnet (some response) =
      (response.filter fun e => ¬Unseen netinfo e ∧ IsPreferred preferredSubnet e).reverse ++
        ((response.filter fun e => ¬Unseen netinfo e ∧ ¬IsPreferred preferredSubnet e).reverse ++
          response.filter fun e => Unseen netinfo e) := by
  have hjoin : etOrderIpAddrs netinfo preferredSubnet (some response) =
      (itemsOf netinfo preferredSubnet response).pref ++
        (itemsOf netinfo preferredSubnet response).other := by
    rw [etOrderIpAddrs]
    split_ifs <;> simp_all
  rw [hjoin, itemsOf_eq]

/-! ## The order as it should be -/

/-- The place of an address in the order: on the preferred subnet, if that is local, on another
local subnet, or elsewhere.  An interface with an empty broadcast address is on no subnet. -/
def rank (e : Entry) : ℕ :=
  if OnSubnetOf (netinfo.filter fun broadcast => ¬broadcast.bytes.length < 1) e then
    if IsPreferred preferredSubnet e then 0 else 1
  else 2

/-- No address is lost or doubled, they are in order, and the last ones are as they were. -/
structure OrdersWell (response : List Entry) : Prop where
  perm : (etOrderIpAddrs netinfo preferredSubnet (some response)).Perm response
  ranked : (etOrderIpAddrs netinfo preferredSubnet (some response)).Pairwise
    fun x y => rank netinfo preferredSubnet x ≤ rank netinfo preferredSubnet y
  others : (etOrderIpAddrs netinfo preferredSubnet (some response)).filter
      (fun e => rank netinfo preferredSubnet e = 2) =
    response.filter fun e => rank netinfo preferredSubnet e = 2

/-- The unseen addresses are in order in the response already, and when there is one on a subnet
that is seen but not preferred, none of them is on the preferred subnet. -/
structure UnseenInOrder (response : List Entry) : Prop where
  ranked : (response.filter fun e => Unseen netinfo e).Pairwise
    fun x y => rank netinfo preferredSubnet x ≤ rank netinfo preferredSubnet y
  notPreferred : (∃ e ∈ response, ¬Unseen netinfo e ∧ ¬IsPreferred preferredSubnet e) →
    ∀ e ∈ response, Unseen netinfo e → rank netinfo preferredSubnet e ≠ 0

variable {netinfo preferredSubnet}

/-- A subnet that is seen is a local one. -/
theorem rank_of_seen {e : Entry} (h : ¬Unseen netinfo e) :
    rank netinfo preferredSubnet e = if IsPreferred preferredSubnet e then 0 else 1 := by
  obtain ⟨b, hb, heq⟩ := not_not.1 h
  have hlocal : OnSubnetOf (netinfo.filter fun broadcast => ¬broadcast.bytes.length < 1) e := by
    have hnonempty := List.mem_takeWhile_imp
      (p := fun broadcast : CStr => decide ¬broadcast.bytes.length < 1) hb
    exact ⟨b, List.mem_filter.2 ⟨List.takeWhile_subset _ hb, hnonempty⟩, heq⟩
  rw [rank, if_pos hlocal]

theorem perm_etOrderIpAddrs (response : List Entry) :
    (etOrderIpAddrs netinfo preferredSubnet (some response)).Perm response := by
  rw [etOrderIpAddrs_eq]
  induction response with
  | nil => exact .refl _
  | cons e response ih =>
      by_cases hunseen : Unseen netinfo e
      · simp only [hunseen, not_true_eq_false, false_and, decide_false, decide_true,
          List.filter_cons_of_pos, List.filter_cons_of_neg, Bool.false_eq_true, not_false_eq_true]
        rw [← List.append_assoc]
        exact List.perm_middle.trans (by simpa using ih.cons e)
      · by_cases hpref : IsPreferred preferredSubnet e
        · simp only [hunseen, hpref, not_false_eq_true, true_and, not_true_eq_false, decide_false,
            decide_true, List.filter_cons_of_pos, List.filter_cons_of_neg, Bool.false_eq_true]
          rw [List.reverse_cons, List.append_assoc]
          exact List.perm_middle.trans (by simpa using ih.cons e)
        · simp only [hunseen, hpref, not_false_eq_true, true_and, and_false, decide_false,
            decide_true, List.filter_cons_of_pos, List.filter_cons_of_neg, Bool.false_eq_true]
          rw [List.reverse_cons, List.append_assoc, ← List.append_assoc]
          exact List.perm_middle.trans (by simpa using ih.cons e)

/-- The addresses that are nowhere local are unseen, and these keep their order. -/
theorem others_etOrderIpAddrs (response : List Entry) :
    (etOrderIpAddrs netinfo preferredSubnet (some response)).filter
        (fun e => rank netinfo preferredSubnet e = 2) =
      response.filter fun e => rank netinfo preferredSubnet e = 2 := by
  have hseen : ∀ e, rank netinfo preferredSubnet e = 2 → Unseen netinfo e := by
    intro e he
    by_contra hnot
    rw [rank_of_seen hnot] at he
    split at he <;> omega
  have hnone : ∀ q : Entry → Prop, ∀ _ : DecidablePred q, (∀ e, q e → ¬Unseen netinfo e) →
      (response.filter q).reverse.filter (fun e => rank netinfo preferredSubnet e = 2) = [] := by
    intro q _ hq
    rw [List.filter_eq_nil_iff]
    intro e he hrank
    exact hq e (of_decide_eq_true (List.mem_filter.1 (List.mem_reverse.1 he)).2)
      (hseen e (of_decide_eq_true hrank))
  rw [etOrderIpAddrs_eq, List.filter_append, List.filter_append,
    hnone _ (fun _ => inferInstance) (fun _ h => h.1),
    hnone _ (fun _ => inferInstance) (fun _ h => h.1), List.nil_append, List.nil_append,
    List.filter_filter]
  refine List.filter_congr fun e _ => ?_
  by_cases he : rank netinfo preferredSubnet e = 2
  · simp [he, hseen e he]
  · simp [he]

/-- **The order** is as it should be exactly when the unseen addresses are in order already. -/
theorem ordersWell_iff (netinfo : List CStr) (preferredSubnet : Option CStr)
    (response : List Entry) :
    OrdersWell netinfo preferredSubnet response ↔
      UnseenInOrder netinfo preferredSubnet response := by
  have hpref : ∀ e ∈ (response.filter fun e =>
      ¬Unseen netinfo e ∧ IsPreferred preferredSubnet e).reverse,
      rank netinfo preferredSubnet e = 0 := by
    intro e he
    obtain ⟨hseen, hpref⟩ := of_decide_eq_true (List.mem_filter.1 (List.mem_reverse.1 he)).2
    rw [rank_of_seen hseen, if_pos hpref]
  have hsame : ∀ e ∈ (response.filter fun e =>
      ¬Unseen netinfo e ∧ ¬IsPreferred preferredSubnet e).reverse,
      rank netinfo preferredSubnet e = 1 := by
    intro e he
    obtain ⟨hseen, hpref⟩ := of_decide_eq_true (List.mem_filter.1 (List.mem_reverse.1 he)).2
    rw [rank_of_seen hseen, if_neg hpref]
  constructor
  · rintro ⟨-, hranked, -⟩
    rw [etOrderIpAddrs_eq, List.pairwise_append, List.pairwise_append] at hranked
    obtain ⟨-, ⟨-, hunseen, hcross⟩, -⟩ := hranked
    refine ⟨hunseen, ?_⟩
    rintro ⟨e, he, hseen⟩ e' he' hunseen' hzero
    have hmem : e ∈ (response.filter fun e =>
        ¬Unseen netinfo e ∧ ¬IsPreferred preferredSubnet e).reverse :=
      List.mem_reverse.2 (List.mem_filter.2 ⟨he, decide_eq_true hseen⟩)
    have hle := hcross e hmem e' (List.mem_filter.2 ⟨he', decide_eq_true hunseen'⟩)
    rw [hsame e hmem, hzero] at hle
    omega
  · rintro ⟨hunseen, hnot⟩
    refine ⟨perm_etOrderIpAddrs response, ?_, others_etOrderIpAddrs response⟩
    rw [etOrderIpAddrs_eq, List.pairwise_append, List.pairwise_append]
    refine ⟨?_, ⟨?_, hunseen, ?_⟩, ?_⟩
    · refine List.pairwise_of_forall_mem_list fun x hx y hy => ?_
      rw [hpref x hx, hpref y hy]
    · refine List.pairwise_of_forall_mem_list fun x hx y hy => ?_
      rw [hsame x hx, hsame y hy]
    · intro x hx y hy
      have hx' := List.mem_filter.1 (List.mem_reverse.1 hx)
      have hy' := List.mem_filter.1 hy
      rw [hsame x hx]
      exact Nat.one_le_iff_ne_zero.2
        (hnot ⟨x, hx'.1, of_decide_eq_true hx'.2⟩ y hy'.1 (of_decide_eq_true hy'.2))
    · intro x hx y _
      rw [hpref x hx]
      exact Nat.zero_le _

end

/-- The broadcast address `10.0.0.255`. -/
def lan : CStr := ⟨[49, 48, 46, 48, 46, 48, 46, 50, 53, 53], by decide⟩

/-- `10.0.0.9`, with that broadcast address. -/
def neighbour : Entry :=
  ⟨⟨⟨[49, 48, 46, 48, 46, 48, 46, 57], by decide⟩, by decide⟩, some lan⟩

/-- `9.0.0.9`, with `9.0.0.255`. -/
def stranger : Entry :=
  ⟨⟨⟨[57, 46, 48, 46, 48, 46, 57], by decide⟩, by decide⟩,
    some ⟨[57, 46, 48, 46, 48, 46, 50, 53, 53], by decide⟩⟩

/-- Behind an interface without a broadcast address, the one on the neighbour's subnet is not
seen, and the neighbour stays behind the stranger. -/
theorem not_ordersWell : ¬OrdersWell [CStr.empty, lan] none [stranger, neighbour] := by
  rintro ⟨-, hranked, -⟩
  revert hranked
  decide

end AddressOrder

end EventTransfer
