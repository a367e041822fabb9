import EventTransfer.RemoteServer

/-!
# The histogram over the network

`et_data_gethistogram` (`et_data.c`) fills an array of the caller with the histogram of a
system of `nevents` events.  A local client stops at the end of the array or of the histogram;
a remote client reads the whole histogram into the array and then turns round as many integers
as the array has.

* `CallerArray` — the array, with a note of every element that is stored to.
* `etDataGethistogram` — the call of both kinds of clients.
* `gethistogram_as_local_iff` — a remote call stores the elements that a local call stores, with
  the same values, exactly when the array has the size of the histogram and the reply is no
  longer than an `int` can say.
-/

namespace EventTransfer

open Wire Exchange

variable {τ : Type}

/-! ## The caller's array -/

/-- **An array of integers that belongs to the caller.**  `stored` are the elements stored to
since the call was made, in order; nothing stops a store behind the end of the array. -/
structure CallerArray where
  value : ℕ → Word
  stored : List ℕ

namespace CallerArray

/-- The array when the call is made. -/
def untouched (value : ℕ → Word) : CallerArray := ⟨value, []⟩

/-- `hist[i] = w` -/
def set (hist : CallerArray) (i : ℕ) (w : Word) : CallerArray where
  value := Function.update hist.value i w
  stored := hist.stored ++ [i]

/-- The integers `ws` are stored from element `i` on. -/
def setAll (hist : CallerArray) (i : ℕ) : List Word → CallerArray
  | [] => hist
  | w :: ws => (hist.set i w).setAll (i + 1) ws

/-- `hist[i] = ntohl(hist[i])` for the first `n` elements. -/
def ntohlAll (big : Bool) (hist : CallerArray) : ℕ → CallerArray
  | 0 => hist
  | n + 1 =>
      let hist := hist.ntohlAll big n
      hist.set n (netOrder big (hist.value n))

theorem stored_setAll (hist : CallerArray) (i : ℕ) (ws : List Word) :
    (hist.setAll i ws).stored = hist.stored ++ List.range' i ws.length := by
  induction ws generalizing hist i with
  | nil => exact (List.append_nil _).symm
  | cons w ws ih =>
      rw [setAll, ih, set, List.length_cons, List.range'_succ, List.append_assoc]
      rfl

theorem value_setAll (hist : CallerArray) (i : ℕ) (ws : List Word) (j : ℕ) :
    (hist.setAll i ws).value j =
      if i ≤ j then ws.getD (j - i) (hist.value j) else hist.value j := by
  induction ws generalizing hist i with
  | nil => simp [setAll]
  | cons w ws ih =>
      rw [setAll, ih]
      rcases lt_trichotomy j i with hlt | rfl | hlt
      · rw [if_neg (by omega), if_neg (by omega)]
        exact Function.update_of_ne hlt.ne _ _
      · rw [if_neg (by omega), if_pos le_rfl, Nat.sub_self]
        exact Function.update_self _ _ _
      · have hnext : j - i = j - (i + 1) + 1 := by omega
        rw [if_pos (by omega), if_pos hlt.le, hnext, List.getD_cons_succ]
        show ws.getD _ (Function.update hist.value i w j) = _
        rw [Function.update_of_ne hlt.ne']

theorem stored_ntohlAll (big : Bool) (hist : CallerArray) (n : ℕ) :
    (hist.ntohlAll big n).stored = hist.stored ++ List.range n := by
  induction n with
  | zero => exact (List.append_nil _).symm
  | succ n ih =>
      show (hist.ntohlAll big n).stored ++ [n] = _
      rw [ih, List.range_succ, List.append_assoc]

theorem value_ntohlAll (big : Bool) (hist : CallerArray) (n j : ℕ) :
    (hist.ntohlAll big n).value j =
      if j < n then netOrder big (hist.value j) else hist.value j := by
  induction n with
  | zero => rfl
  | succ n ih =>
      show Function.update (hist.ntohlAll big n).value n _ j = _
      by_cases hj : j = n
      · subst hj
        rw [Function.update_self, ih, if_neg (lt_irrefl j), if_pos (Nat.lt_succ_self j)]
      · have hlt : j < n + 1 ↔ j < n := by omega
        rw [Function.update_of_ne hj, ih]
        simp only [hlt]

end CallerArray

/-! ## The calls -/

/-- The client's `int`s in network order as it finds them in its memory. -/
def rawWords (big : Bool) (n : ℕ) (bytes : List Byte) : List Word :=
  (getWords n bytes).map (netOrder big)

/-- `etr_data_gethistogram`, for a system of `nevents` events.  What a read that fails has
stored is not told. -/
def etrDataGethistogram (big : Bool) (nevents : ℕ) (hist : CallerArray) (size : ℤ) :
    Routine (Except Word CallerArray) :=
  .send (htonl Command.sysHist.code) fun ok => if !ok then .ret (.error etErrorWrite) else
  .recv 4 fun
    | none => .ret (.error etErrorRead)
    | some piece =>
        let err := ntohl piece
        if err ≠ etOk then .ret (.error err) else
        recvData (BitVec.ofNat 64 (4 * (nevents + 1))) fun
          | none => .ret (.error etErrorRead)
          | some bytes =>
              let hist := hist.setAll 0 (rawWords big (nevents + 1) bytes)
              .ret (.ok (hist.ntohlAll big size.toNat))

/-- **The two kinds of clients**: one sees the histogram, the other has a connection and knows
the number of events. -/
inductive HistogramId
  | ofLocal (histogram : List Word)
  | remote (big : Bool) (nevents : ℕ)

/-- **`et_data_gethistogram`**; `hist` is `none` for a null pointer. -/
def etDataGethistogram (id : HistogramId) (hist : Option CallerArray) (size : ℤ) :
    Routine (Except Word CallerArray) :=
  match hist with
  | none => .ret (.error etError)
  | some hist =>
      if size < 1 then .ret (.error etError) else
      match id with
      | .remote big nevents => etrDataGethistogram big nevents hist size
      | .ofLocal histogram =>
          let size : ℤ := if size > histogram.length then histogram.length else size
          .ret (.ok (hist.setAll 0 (histogram.take size.toNat)))

/-! ## What is stored -/

/-- What a local client stores. -/
theorem etDataGethistogram_local {size : ℤ} (hsize : 1 ≤ size) (histogram : List Word)
    (hist : CallerArray) :
    etDataGethistogram (.ofLocal histogram) (some hist) size =
      .ret (.ok (hist.setAll 0 (histogram.take (min size histogram.length).toNat))) := by
  have hmin : (if size > (histogram.length : ℤ) then (histogram.length : ℤ) else size) =
      min size histogram.length := by
    rw [min_def]
    split_ifs <;> omega
  simp only [etDataGethistogram, if_neg (not_lt.mpr hsize), hmin]

theorem etDataGethistogram_remote {size : ℤ} (hsize : 1 ≤ size) (big : Bool) (nevents : ℕ)
    (hist : CallerArray) :
    etDataGethistogram (.remote big nevents) (some hist) size =
      etrDataGethistogram big nevents hist size := by
  simp only [etDataGethistogram, if_neg (not_lt.mpr hsize)]

theorem value_local {histogram : List Word} {size : ℤ} {i : ℕ}
    (hi : (i : ℤ) < min size histogram.length) (hist : CallerArray) :
    (hist.setAll 0 (histogram.take (min size histogram.length).toNat)).value i =
      histogram.getD i (hist.value i) := by
  rw [CallerArray.value_setAll, if_pos (Nat.zero_le i), Nat.sub_zero,
    List.getD_eq_getElem?_getD, List.getElem?_take_of_lt (by omega),
    ← List.getD_eq_getElem?_getD]

/-- A remote call stores the whole histogram, and then to the whole array. -/
theorem stored_remote (big : Bool) (histogram : List Word) (value : ℕ → Word) (size : ℤ) (i : ℕ) :
    i ∈ (((CallerArray.untouched value).setAll 0 (histogram.map (netOrder big))).ntohlAll big
        size.toNat).stored ↔ i < histogram.length ∨ (i : ℤ) < size := by
  rw [CallerArray.stored_ntohlAll, CallerArray.stored_setAll, CallerArray.untouched,
    List.nil_append, List.mem_append, List.mem_range'_1, List.mem_range, List.length_map]
  omega

theorem value_remote {histogram : List Word} {size : ℤ} {i : ℕ} (hi : (i : ℤ) < size)
    (hlt : i < histogram.length) (big : Bool) (hist : CallerArray) :
    ((hist.setAll 0 (histogram.map (netOrder big))).ntohlAll big size.toNat).value i =
      histogram.getD i (hist.value i) := by
  have hsome : histogram[i]? = some histogram[i] := List.getElem?_eq_getElem hlt
  rw [CallerArray.value_ntohlAll, if_pos (by omega), CallerArray.value_setAll,
    if_pos (Nat.zero_le i), Nat.sub_zero, List.getD_eq_getElem?_getD, List.getElem?_map,
    List.getD_eq_getElem?_getD, hsome]
  exact netOrder_netOrder big _

section

variable (L : Local τ) (serverBig : Bool) (m : Memory τ)

/-- The server's answer. -/
theorem run_commandLoop_sysHist :
    L.commandLoop serverBig (some m) (htonl Command.sysHist.code) =
      some (L.answerHistogram m, []) := by
  have h := run_commandLoop L serverBig m .sysHist []
  rw [List.append_nil] at h
  exact h

/-- A reply that an `int` can count is sent as a whole, and received as a whole. -/
theorem converse_remote {big : Bool} {nevents : ℕ} (hlen : (L.histogram m).length = nevents + 1)
    (hfits : 4 * (nevents + 2) < 2 ^ 31) (hist : CallerArray) (size : ℤ) :
    converse (L.commandLoop serverBig) (etrDataGethistogram big nevents hist size)
        (.quiet (some m)) =
      some (.ok ((hist.setAll 0 ((L.histogram m).map (netOrder big))).ntohlAll big size.toNat),
        .quiet (some m)) := by
  have hreply : L.answerHistogram m = (some m, putWords (etOk :: L.histogram m)) := by
    refine if_pos ?_
    rw [length_putWords, List.length_cons, hlen]
    omega
  have hserve := run_commandLoop_sysHist L serverBig m
  rw [hreply] at hserve
  have hbytes : (BitVec.ofNat 64 (4 * (nevents + 1))).toNat = 4 * (nevents + 1) := by
    rw [BitVec.toNat_ofNat]
    omega
  have hint : intLen (BitVec.ofNat 64 (4 * (nevents + 1))) = 4 * (nevents + 1) := by
    rw [intLen_of_lt (by omega), hbytes]
  have hpiece : (putWords (L.histogram m)).length = 4 * (nevents + 1) := by
    rw [length_putWords, hlen]
  have hsmall : 4 * (nevents + 1) < 2 ^ 31 := by omega
  rw [etrDataGethistogram, converse_send hserve, putWords_cons]
  show converse _ (.recv 4 _) _ = _
  rw [converse_recv (length_htonl etOk)]
  simp only [ntohl_htonl, ne_eq, not_true_eq_false, if_false]
  rw [recvData, hint, ← List.append_nil (putWords (L.histogram m)), converse_recv hpiece, hbytes,
    if_pos hsmall]
  simp only [rawWords, getWords_putWords hlen]
  rfl

/-- A reply that an `int` cannot count is cut off, and the call does not succeed. -/
theorem converse_remote_long {big : Bool} {nevents : ℕ}
    (hlen : (L.histogram m).length = nevents + 1) (hint : nevents + 1 < 2 ^ 31)
    (hlong : 2 ^ 31 ≤ 4 * (nevents + 2)) {hist after : CallerArray} {size : ℤ}
    {c : Conn (Option (Memory τ))} :
    converse (L.commandLoop serverBig) (etrDataGethistogram big nevents hist size)
      (.quiet (some m)) ≠ some (.ok after, c) := by
  have hreply : (putWords (etOk :: L.histogram m)).length = 4 * (nevents + 2) := by
    rw [length_putWords, List.length_cons, hlen]
  have hserve := run_commandLoop_sysHist L serverBig m
  rw [Local.answerHistogram, hreply, if_neg (not_lt.mpr hlong)] at hserve
  have hbytes : (BitVec.ofNat 64 (4 * (nevents + 1))).toNat = 4 * (nevents + 1) := by
    rw [BitVec.toNat_ofNat]
    omega
  intro h
  rw [etrDataGethistogram, converse_send hserve] at h
  rw [Bool.not_true, if_neg Bool.false_ne_true, converse] at h
  split at h
  · rename_i hfour
    dsimp only at h
    split_ifs at h
    · cases h
    · rw [recvData, converse] at h
      split at h
      · have hsmall : ¬ 4 * (nevents + 1) < 2 ^ 31 := by
          intro hsmall
          -- the one number of events where only the whole reply is too long
          have hn : 4 * (nevents + 2) = 2 ^ 31 := by omega
          have hnone : intLen (BitVec.ofNat 64 (2 ^ 31)) = 0 := by decide
          rw [hn, hnone] at hfour
          exact (Nat.not_succ_le_zero 3 hfour).elim
        rw [hbytes, if_neg hsmall] at h
        cases h
      · cases h
  · cases h

end

/-! ## A remote call and a local call -/

/-- **A remote call does what a local call does**: it succeeds, stores the elements that are
both in the array and in the histogram and no others, with the values a local call stores. -/
def GethistogramAsLocal (L : Local τ) (serverBig big : Bool) (m : Memory τ) (nevents : ℕ)
    (value : ℕ → Word) (size : ℤ) : Prop :=
  ∃ after c byLocal s,
    converse (L.commandLoop serverBig)
        (etDataGethistogram (.remote big nevents) (some (.untouched value)) size)
        (.quiet (some m)) = some (.ok after, c) ∧
      converse (L.commandLoop serverBig)
        (etDataGethistogram (.ofLocal (L.histogram m)) (some (.untouched value)) size)
        (.quiet (some m)) = some (.ok byLocal, s) ∧
      (∀ i : ℕ, i ∈ after.stored ↔ (i : ℤ) < min size (nevents + 1)) ∧
      ∀ i : ℕ, (i : ℤ) < min size (nevents + 1) → after.value i = byLocal.value i

section

variable {L : Local τ} {serverBig big : Bool} {m : Memory τ} {nevents : ℕ}

/-- What a remote call has to be asked for to be like a local call. -/
theorem GethistogramAsLocal.size_eq (hint : nevents + 1 < 2 ^ 31)
    (hlen : (L.histogram m).length = nevents + 1) {value : ℕ → Word} {size : ℤ}
    (hsize : 1 ≤ size) (h : GethistogramAsLocal L serverBig big m nevents value size) :
    size = nevents + 1 ∧ 4 * (nevents + 2) < 2 ^ 31 := by
  obtain ⟨after, c, -, -, hafter, -, hstored, -⟩ := h
  rw [etDataGethistogram_remote hsize] at hafter
  have hfits : 4 * (nevents + 2) < 2 ^ 31 := by
    by_contra hlong
    exact converse_remote_long L serverBig m hlen hint (not_lt.mp hlong) hafter
  rw [converse_remote L serverBig m hlen hfits] at hafter
  cases hafter
  refine ⟨?_, hfits⟩
  -- the last element of the longer one of the two is stored to, and has to be in both
  have hhist := (stored_remote big (L.histogram m) value size nevents).symm.trans
    (hstored nevents)
  have harray := (stored_remote big (L.histogram m) value size (size.toNat - 1)).symm.trans
    (hstored (size.toNat - 1))
  rw [hlen] at hhist harray
  have hlow : (nevents : ℤ) < min size (nevents + 1) := hhist.mp (.inl (Nat.lt_succ_self _))
  have hhigh : ((size.toNat - 1 : ℕ) : ℤ) < min size (nevents + 1) :=
    harray.mp (.inr (by omega))
  omega

/-- **Exactly when a remote call is like a local call**: when the array has the size of the
histogram, and an `int` can count the reply. -/
theorem gethistogram_as_local_iff (hint : nevents + 1 < 2 ^ 31)
    (hlen : (L.histogram m).length = nevents + 1) (value : ℕ → Word) {size : ℤ}
    (hsize : 1 ≤ size) :
    GethistogramAsLocal L serverBig big m nevents value size ↔
      size = nevents + 1 ∧ 4 * (nevents + 2) < 2 ^ 31 := by
  constructor
  · exact GethistogramAsLocal.size_eq hint hlen hsize
  · rintro ⟨rfl, hfits⟩
    rw [GethistogramAsLocal, etDataGethistogram_remote hsize, etDataGethistogram_local hsize]
    refine ⟨_, _, _, _, converse_remote L serverBig m hlen hfits _ _, rfl, ?_, ?_⟩
    · intro i
      rw [stored_remote, hlen]
      omega
    · intro i hi
      rw [value_remote (by omega) (by omega), value_local (by omega)]

end

/-- A system with a histogram, that does nothing else. -/
def Local.counting (histogram : List Word) : Local (Word × Word) :=
  { Local.noting with histogram := fun _ => histogram }

theorem gethistogram_as_local_example :
    GethistogramAsLocal (Local.counting [4, 0, 7]) false false .unnoted 2 (fun _ => 0) 3 :=
  (gethistogram_as_local_iff (by decide) rfl _ (by decide)).mpr (by decide)

/-- An array of one integer, in a system of two events: two integers are stored behind its
end. -/
theorem gethistogram_stores_behind :
    ¬ GethistogramAsLocal (Local.counting [4, 0, 7]) false false .unnoted 2 (fun _ => 0) 1 := by
  intro h
  have hsize := (h.size_eq (by decide) rfl (by decide)).1
  exact absurd hsize (by decide)

end EventTransfer
