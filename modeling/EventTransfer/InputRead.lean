import EventTransfer.InputRepair

/-!
# A read of an input list, store by store

`wp_stationRead` and `wp_stationNread`: every memory in which a process reading from
the head of a list can die is a `ReadCrash`, and a complete read is a `ReadDone`.
-/

namespace EventTransfer

open LinkedHeap StoreProgram StoreProgram.Prog

/-- **A complete read**: the list has gone from `xs` to `kept`, and the events
`taken` belong to `att`. -/
structure ReadDone (att : ℤ) (m : InMem) (xs taken kept : List ℕ) (t : InMem) : Prop where
  isList : IsList t.ev t.pl kept
  hdr : t.ev.hdr = m.ev.hdr
  next : ∀ a, a ∉ xs → t.ev.next a = m.ev.next a
  owner : ∀ a, t.ev.owner a = if a ∈ taken then att else m.ev.owner a
  counters : t.pl.lasthigh = m.pl.lasthigh ∧ t.pl.eventsTry = m.pl.eventsTry ∧
    t.pl.eventsIn = m.pl.eventsIn ∧ t.pl.eventsOut = m.pl.eventsOut
  start : t.fix.start = m.fix.start
  closed : t.fix.first = none

/-- A well-formed input list with no read in progress. -/
structure Readable (m : InMem) (xs : List ℕ) : Prop where
  isList : IsList m.ev m.pl xs
  owned : ∀ e ∈ xs, m.ev.owner e = etSys
  closed : m.fix.first = none

section Read

variable {att : ℤ} {m t : InMem} {xs : List ℕ}

/-- Notes that do not name a first event leave the list as it is. -/
theorem Readable.crash (h : Readable m xs) (fix : FixIn) (hfix : fix.first = none) :
    ReadCrash att xs { m with fix := fix } :=
  .whole xs ⟨h.isList, fun _ h => h, h.owned, fun _ ha hn => absurd ha hn⟩ (Or.inl hfix)

/-- While the links of the list are as they were, the whole list can be repaired,
whatever has happened to its first pointer and to the owners. -/
theorem Readable.reading (h : Readable m xs) (hne : xs ≠ []) {ev : Events} {pl : EtList}
    {fix : FixIn} (hnext : ev.next = m.ev.next) (hlast : pl.lastevent = m.pl.lastevent)
    (hcnt : pl.cnt = m.pl.cnt) (hfirst : fix.first = m.pl.firstevent)
    (hfix : fix.cnt = m.pl.cnt) (hnum : fix.num ≠ 0) : ReadCrash att xs ⟨ev, pl, fix⟩ := by
  have hs := h.isList.spans
  refine .reading xs hne ?_ ?_ ?_ hs.nodup ?_ (fun _ h => h) fun _ ha hn => absurd ha hn
  · exact hfirst.trans (hs.first_eq hne)
  · show (pl.cnt : ℤ) ≠ fix.cnt - fix.num
    rw [hcnt, hfix]
    omega
  · rw [hnext]
    exact hs.linked
  · exact hlast.trans (hs.last_eq hne)

/-- The list without its first `n` events, when its first pointer is the link of the
last of these. -/
theorem IsList.drop (h : IsList m.ev m.pl xs) {n : ℕ} {l : Option ℕ} {ev : Events}
    (hnext : ev.next = m.ev.next) (hl : n < xs.length → l = xs[n]?) :
    IsList ev { m.pl with firstevent := l, cnt := m.pl.cnt - n } (xs.drop n) := by
  have hs := h.spans
  have happ := List.take_append_drop n xs
  have hlen : xs.drop n ≠ [] → n < xs.length := by
    rw [ne_eq, List.drop_eq_nil_iff, not_le]
    exact id
  refine ⟨by simp [h.cnt_eq], ?_, hs.nodup.sublist (List.drop_sublist n xs), ?_, ?_⟩
  · rw [hnext]
    exact (linked_append.mp (happ.symm ▸ hs.linked)).2.1
  · intro hne
    rw [hl (hlen hne), List.head?_drop]
  · intro hne
    rw [hs.last_eq (List.ne_nil_of_length_pos (by have := hlen hne; omega))]
    conv_lhs => rw [← happ, List.getLast?_append_of_ne_nil _ hne]

theorem Readable.repaired_drop (h : Readable m xs) {n : ℕ} {l : Option ℕ}
    (hl : n < xs.length → l = xs[n]?) (fix : FixIn) :
    RepairedInput att xs (xs.drop n) ⟨m.ev.setOwners (xs.take n) att,
      { m.pl with firstevent := l, cnt := m.pl.cnt - n }, fix⟩ := by
  refine ⟨h.isList.drop (Events.setOwners_next _ _ _) hl, List.drop_subset n xs, ?_, ?_⟩
  · intro a ha
    have hnot : a ∉ xs.take n := by
      have hd := h.isList.spans.nodup
      rw [← List.take_append_drop n xs] at hd
      exact fun ht => (List.nodup_append.mp hd).2.2 a ht a ha rfl
    rw [Events.setOwners_owner, if_neg hnot]
    exact h.owned a (List.mem_of_mem_drop ha)
  · intro a ha hn
    rw [← List.take_append_drop n xs, List.mem_append] at ha
    rw [Events.setOwners_owner, if_pos (ha.resolve_right hn)]

theorem Readable.done_drop (h : Readable m xs) {n : ℕ} {l : Option ℕ}
    (hl : n < xs.length → l = xs[n]?) {fix : FixIn} (hstart : fix.start = m.fix.start)
    (hfirst : fix.first = none) :
    ReadDone att m xs (xs.take n) (xs.drop n) ⟨m.ev.setOwners (xs.take n) att,
      { m.pl with firstevent := l, cnt := m.pl.cnt - n }, fix⟩ where
  isList := h.isList.drop (Events.setOwners_next _ _ _) hl
  hdr := Events.setOwners_hdr _ _ _
  next a _ := congrFun (Events.setOwners_next _ _ _) a
  owner a := Events.setOwners_owner _ _ _ a
  counters := ⟨rfl, rfl, rfl, rfl⟩
  start := hstart
  closed := hfirst

/-- **`et_station_read`.** -/
theorem wp_stationRead (h : Readable m xs) (hne : xs ≠ []) :
    wp (stationRead att) (ReadCrash att xs)
      (fun r t => r = xs.head? ∧ ReadDone att m xs (xs.take 1) (xs.drop 1) t) m := by
  obtain ⟨e, ys, rfl⟩ := List.exists_cons_of_ne_nil hne
  have hs := h.isList.spans
  have hfirst : m.pl.firstevent = some e := hs.first_eq hne
  have hcnt := h.isList.cnt_eq
  have hnext : 1 < (e :: ys).length → m.ev.next e = (e :: ys)[1]? := by
    intro hlen
    cases ys with
    | nil => simp at hlen
    | cons b ys => exact ((linked_cons_cons _ _ _ _).mp hs.linked).1
  unfold stationRead
  simp only [wp_bind, wp_get, wp_store]
  rw [hfirst]
  simp only [wp_bind, wp_store, wp_pure]
  have c₀ : ∀ fix : FixIn, fix.first = none → ReadCrash att (e :: ys) { m with fix := fix } :=
    fun fix hfix => h.crash fix hfix
  -- the note of the first event is in force until the count is stored
  have c₁ : ∀ (ev : Events) (first : Option ℕ), ev.next = m.ev.next →
      ReadCrash att (e :: ys) ⟨ev, { m.pl with firstevent := first }, { m.fix with
        cnt := m.pl.cnt, num := 1, call := .read, first := some e }⟩ :=
    fun ev first hev => h.reading hne hev rfl rfl hfirst.symm rfl Nat.one_ne_zero
  have c₂ : ReadCrash att (e :: ys) ⟨m.ev.setOwner e att,
      { m.pl with firstevent := m.ev.next e, cnt := m.pl.cnt - 1 }, { m.fix with
        cnt := m.pl.cnt, num := 1, call := .read, first := some e }⟩ := by
    refine .whole ys (h.repaired_drop hnext _) (Or.inr ?_)
    show ((m.pl.cnt - 1 : ℕ) : ℤ) = m.pl.cnt - (1 : ℕ)
    rw [hcnt, List.length_cons]
    omega
  have c₃ : ReadCrash att (e :: ys) ⟨m.ev.setOwner e att,
      { m.pl with firstevent := m.ev.next e, cnt := m.pl.cnt - 1 }, { m.fix with
        cnt := m.pl.cnt, num := 1, call := .read, first := none }⟩ :=
    .whole ys (h.repaired_drop hnext _) (Or.inl rfl)
  have hc := h.closed
  refine ⟨c₀ _ hc, c₀ _ hc, c₀ _ hc, c₀ _ hc, c₀ _ hc, c₀ _ hc, c₀ _ hc, ?_⟩
  refine ⟨c₁ _ _ rfl, c₁ _ _ rfl, c₁ _ _ rfl, c₁ _ _ rfl, c₁ _ _ rfl, c₁ _ _ rfl, c₁ _ _ rfl, ?_⟩
  exact ⟨c₂, c₂, c₃, c₃, rfl, h.done_drop hnext rfl rfl⟩

/-- The loop of `et_station_nread`: only owners change, one after the other, and the
last link read is the one to the first event left. -/
theorem wp_nreadLoop {C : InMem → Prop} {Q : List ℕ × Option ℕ → InMem → Prop} {n : ℕ}
    {p : Option ℕ} {zs : List ℕ} (hl : Linked t.ev.next zs) (hn : n ≤ zs.length)
    (hp : zs ≠ [] → p = zs.head?)
    (hC : ∀ k ≤ n, C { t with ev := t.ev.setOwners (zs.take k) att })
    (hQ : ∀ l, (n < zs.length → l = zs[n]?) →
      Q (zs.take n, l) { t with ev := t.ev.setOwners (zs.take n) att }) :
    wp (nreadLoop att n p) C Q t := by
  induction n generalizing t p zs Q with
  | zero =>
      have h₀ : C t := hC 0 le_rfl
      have h₁ := hQ p fun hz => by
        rw [hp (List.ne_nil_of_length_pos hz), List.head?_eq_getElem?]
      simp only [nreadLoop, wp_pure]
      exact ⟨h₀, h₁⟩
  | succ n ih =>
      cases zs with
      | nil => exact absurd hn (Nat.not_succ_le_zero n)
      | cons e ys =>
          rw [hp (List.cons_ne_nil e ys), List.head?_cons]
          unfold nreadLoop
          simp only [wp_bind, wp_store, wp_get, wp_pure]
          have hC₁ := hC 1 (Nat.le_add_left 1 n)
          refine ⟨hC 0 (Nat.zero_le _), hC₁, hC₁, ?_⟩
          have hl' : Linked (t.ev.setOwner e att).next ys := List.IsChain.tail hl
          refine ih hl' (Nat.le_of_succ_le_succ hn) ?_ ?_ ?_
          · intro hne
            obtain ⟨b, ys, rfl⟩ := List.exists_cons_of_ne_nil hne
            exact ((linked_cons_cons _ _ _ _).mp hl).1
          · intro k hk
            exact hC (k + 1) (Nat.succ_le_succ hk)
          · intro l hlink
            refine ⟨hC (n + 1) le_rfl, hQ l fun hlt => ?_⟩
            rw [List.getElem?_cons_succ]
            exact hlink (Nat.lt_of_succ_lt_succ hlt)

/-- The notes of a read that is about to begin. -/
theorem wp_noteRead {num : ℕ} (h : Readable m xs) (hne : xs ≠ []) (hnum : num ≠ 0) :
    wp (noteRead num) (ReadCrash att xs)
      (fun _ t => t = { m with fix := { m.fix with
        cnt := m.pl.cnt, num := num, call := .read, first := m.pl.firstevent } }) m := by
  have hc := h.closed
  have c₀ : ∀ fix : FixIn, fix.first = none → ReadCrash att xs { m with fix := fix } :=
    fun fix hfix => h.crash fix hfix
  have c₁ : ReadCrash att xs { m with fix := { m.fix with
      cnt := m.pl.cnt, num := num, call := .read, first := m.pl.firstevent } } :=
    h.reading hne rfl rfl rfl rfl rfl hnum
  unfold noteRead
  simp only [wp_bind, wp_store]
  exact ⟨c₀ _ hc, c₀ _ hc, c₀ _ hc, c₀ _ hc, c₀ _ hc, c₀ _ hc, c₀ _ hc, c₁, trivial⟩

/-- **`et_station_nread`.** -/
theorem wp_stationNread {num : ℕ} (h : Readable m xs) (hne : xs ≠ []) (hnum : num ≠ 0) :
    wp (stationNread att num) (ReadCrash att xs)
      (fun r t => r = xs.take (min num xs.length) ∧
        ReadDone att m xs (xs.take (min num xs.length)) (xs.drop (min num xs.length)) t) m := by
  have hs := h.isList.spans
  have hcnt := h.isList.cnt_eq
  have hlen : xs.length ≠ 0 := fun hz => hne (List.length_eq_zero_iff.mp hz)
  unfold stationNread
  simp only [wp_bind, wp_get, wp_store, wp_pure]
  refine ⟨h.crash m.fix h.closed, ?_⟩
  rw [hcnt]
  set n := min num xs.length with hn
  have hn0 : n ≠ 0 := by omega
  have hnle : n ≤ xs.length := Nat.min_le_right _ _
  refine wp_mono (wp_noteRead h hne hn0) (fun _ h => h) ?_
  rintro - t ht rfl
  have reading : ∀ (k : ℕ) (first : Option ℕ), ReadCrash att xs
      ⟨m.ev.setOwners (xs.take k) att, { m.pl with firstevent := first }, { m.fix with
        cnt := m.pl.cnt, num := n, call := .read, first := m.pl.firstevent }⟩ :=
    fun k first => h.reading hne (Events.setOwners_next _ _ _) rfl rfl rfl rfl hn0
  refine wp_nreadLoop hs.linked hnle hs.first_eq (fun k _ => reading k _) ?_
  intro l hl
  have c₂ : ReadCrash att xs ⟨m.ev.setOwners (xs.take n) att,
      { m.pl with firstevent := l, cnt := m.pl.cnt - n }, { m.fix with
        cnt := m.pl.cnt, num := n, call := .read, first := m.pl.firstevent }⟩ := by
    refine .whole _ (h.repaired_drop hl _) (Or.inr ?_)
    show ((m.pl.cnt - n : ℕ) : ℤ) = m.pl.cnt - n
    rw [hcnt]
    omega
  have c₃ : ReadCrash att xs ⟨m.ev.setOwners (xs.take n) att,
      { m.pl with firstevent := l, cnt := m.pl.cnt - n }, { m.fix with
        cnt := m.pl.cnt, num := n, call := .read, first := none }⟩ :=
    .whole _ (h.repaired_drop hl _) (Or.inl rfl)
  exact ⟨reading n _, reading n l, reading n l, c₂, c₂, c₃, c₃, rfl, h.done_drop hl rfl rfl⟩

/-! ### Reads that complete

What a complete read leaves does not depend on the owners of the events. -/

theorem wp_stationRead_done (att : ℤ) (h : IsList m.ev m.pl xs) (hne : xs ≠ []) :
    wp (stationRead att) (fun _ => True) (fun r t => r = xs.head? ∧
      IsList t.ev t.pl (xs.drop 1) ∧ t.ev = m.ev.setOwners (xs.take 1) att) m := by
  obtain ⟨e, ys, rfl⟩ := List.exists_cons_of_ne_nil hne
  have hnext : 1 < (e :: ys).length → m.ev.next e = (e :: ys)[1]? := by
    intro hlen
    cases ys with
    | nil => simp at hlen
    | cons b ys => exact ((linked_cons_cons _ _ _ _).mp h.spans.linked).1
  unfold stationRead
  simp only [wp_bind, wp_get, wp_store, true_and]
  rw [h.spans.first_eq hne]
  simp only [List.head?_cons, wp_bind, wp_store, wp_pure, true_and]
  exact ⟨h.drop rfl hnext, rfl⟩

theorem wp_stationNread_done (att : ℤ) (num : ℕ) (h : IsList m.ev m.pl xs) :
    wp (stationNread att num) (fun _ => True) (fun r t => r = xs.take num ∧
      IsList t.ev t.pl (xs.drop num) ∧ t.ev = m.ev.setOwners (xs.take num) att) m := by
  have hcnt := h.cnt_eq
  have htake : xs.take (min num xs.length) = xs.take num := by
    rw [← List.take_take, List.take_length]
  have hdrop : xs.drop (min num xs.length) = xs.drop num := by
    rcases le_total num xs.length with hle | hle
    · rw [Nat.min_eq_left hle]
    · rw [Nat.min_eq_right hle, List.drop_length, List.drop_of_length_le hle]
  unfold stationNread noteRead
  simp only [wp_bind, wp_get, wp_store, wp_pure, true_and]
  rw [hcnt]
  refine wp_nreadLoop h.spans.linked (Nat.min_le_right _ _) h.spans.first_eq
    (fun _ _ => trivial) fun l hl => ?_
  have hlist := h.drop (Events.setOwners_next m.ev (xs.take (min num xs.length)) att) hl
  rw [htake] at hlist ⊢
  rw [hdrop] at hlist
  exact ⟨rfl, hlist, rfl⟩

end Read
end EventTransfer
