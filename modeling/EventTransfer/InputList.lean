import EventTransfer.Event

/-!
# Reading a station's input list

The three readers of an input list, from the point where the list is locked and
known not to be empty: `et_station_read` takes the first event,
`et_station_nread` the first `num`, `et_station_nread_group` the first `num` of one
group, out of the middle of the list.  `et_repair_inputlist` is what the ET system
runs when a reader has died with the list locked.

A reader that has to follow a null pointer stops; on a well-formed list none does.

The repair's loop has no bound of its own: it stops at the list's last event and
nowhere else.  It is modelled with a bound on its steps, and `none` says that it
followed a null pointer or did not stop within them.
-/

namespace EventTransfer

open LinkedHeap StoreProgram StoreProgram.Prog

/-- The memory a routine working on an input list changes. -/
abbrev InMem := ListMem FixIn

/-- `e->group == group`. -/
def Events.inGroup (ev : Events) (group e : ℕ) : Bool := (ev.hdr e).group = group

/-! ## The readers -/

/-- `et_station_read`: the first event goes to `att`. -/
def stationRead (att : ℤ) : Prog InMem (Option ℕ) := do
  store fun t => { t with fix.cnt := t.pl.cnt }
  store fun t => { t with fix.num := 1 }
  store fun t => { t with fix.call := .read }
  store fun t => { t with fix.first := t.pl.firstevent }
  let m ← get
  match m.pl.firstevent with
  | none => pure none
  | some pe => do
      store fun t => { t with pl.firstevent := t.ev.next pe }
      store fun t => { t with ev := t.ev.setOwner pe att }
      store fun t => { t with pl.cnt := t.pl.cnt - 1 }
      store fun t => { t with fix.first := none }
      pure (some pe)

/-- "Info for fixing broken input list": the notes of `et_station_nread` and
`et_station_nread_group`. -/
def noteRead (num : ℕ) : Prog InMem PUnit := do
  store fun t => { t with fix.num := num }
  store fun t => { t with fix.cnt := t.pl.cnt }
  store fun t => { t with fix.call := .read }
  store fun t => { t with fix.first := t.pl.firstevent }

/-- The loop of `et_station_nread`: `n` events from `pe` on go to `att`.  The value
is the events and the link of the last one. -/
def nreadLoop (att : ℤ) : ℕ → Option ℕ → Prog InMem (List ℕ × Option ℕ)
  | 0, pe => pure ([], pe)
  | _ + 1, none => pure ([], none)
  | n + 1, some pe => do
      store fun t => { t with ev := t.ev.setOwner pe att }
      let m ← get
      let r ← nreadLoop att n (m.ev.next pe)
      pure (pe :: r.1, r.2)

/-- `et_station_nread`: up to `num` events go to `att`; the value is these events. -/
def stationNread (att : ℤ) (num : ℕ) : Prog InMem (List ℕ) := do
  let m ← get
  let num := min num m.pl.cnt
  noteRead num
  let r ← nreadLoop att num m.pl.firstevent
  store fun t => { t with pl.firstevent := r.2 }
  store fun t => { t with pl.cnt := t.pl.cnt - num }
  store fun t => { t with fix.first := none }
  pure r.1

/-- The loop of `et_station_nread_group`: `pev` is the event looked at, `prev` the
last one kept, `num` the number of events still wanted, and the first argument the
number of events still to look at.  The value is the events taken. -/
def nreadGroupLoop (att : ℤ) (group : ℕ) :
    ℕ → Option ℕ → Option ℕ → ℕ → Prog InMem (List ℕ)
  | 0, _, _, _ => pure []
  | _ + 1, _, none, _ => pure []
  | i + 1, prev, some pev, num => do
      let m ← get
      if m.ev.inGroup group pev then do
        store fun t => { t with ev := t.ev.setOwner pev att }
        if prev = none then
          store fun t => { t with pl.firstevent := t.ev.next pev }
        else
          store fun t => { t with ev := t.ev.setNext prev (t.ev.next pev) }
        -- "if we grabbed the last event in the list, reset last item pointer"
        when (m.pl.lastevent = some pev) (store fun t => { t with pl.lastevent := prev })
        if num ≤ 1 then pure [pev]
        else do
          let m ← get
          let r ← nreadGroupLoop att group i prev (m.ev.next pev) (num - 1)
          pure (pev :: r)
      else
        nreadGroupLoop att group i (some pev) (m.ev.next pev) num

/-- One scan of `et_station_nread_group`; the value is the events taken. -/
def stationNreadGroup (att : ℤ) (num group : ℕ) : Prog InMem (List ℕ) := do
  let m ← get
  let num := min num m.pl.cnt
  noteRead num
  let taken ← nreadGroupLoop att group m.pl.cnt none m.pl.firstevent num
  store fun t => { t with pl.cnt := t.pl.cnt - taken.length }
  store fun t => { t with fix.first := none }
  pure taken

/-! ## The repair -/

/-- The loop of `et_repair_inputlist`: every event from `pe` to `last` is given back
to the system and counted. -/
def repairInputLoop (last : Option ℕ) : ℕ → Option ℕ → InMem → ℕ → Option (InMem × ℕ)
  | 0, _, _, _ => none
  | _ + 1, none, _, _ => none
  | n + 1, some pe, t, count =>
      let t := { t with ev := t.ev.setOwner pe etSys }
      if some pe = last then some (t, count + 1)
      else repairInputLoop last n (t.ev.next pe) t (count + 1)

/-- `et_repair_inputlist`, within `fuel` steps of its loop. -/
def repairInputlist (fuel : ℕ) (t : InMem) : Option (Ret × InMem) :=
  match t.fix.first with
  | none => some (.ok, t)
  | some first =>
      if (t.pl.cnt : ℤ) = t.fix.cnt - t.fix.num then
        some (.ok, { t with fix.first := none })
      else
        let t := { t with pl.firstevent := some first }
        (repairInputLoop t.pl.lastevent fuel (some first) t 0).map fun r =>
          (.ok, { r.1 with pl.cnt := r.2, fix.first := none })

/-! ## What a read takes -/

/-- **The first `n` elements that satisfy `p`**, and what is left without them. -/
def takeWhere (p : ℕ → Bool) : ℕ → List ℕ → List ℕ × List ℕ
  | _, [] => ([], [])
  | 0, xs => ([], xs)
  | n + 1, x :: xs =>
      if p x then (x :: (takeWhere p n xs).1, (takeWhere p n xs).2)
      else ((takeWhere p (n + 1) xs).1, x :: (takeWhere p (n + 1) xs).2)

@[simp] theorem takeWhere_zero (p : ℕ → Bool) (xs : List ℕ) : takeWhere p 0 xs = ([], xs) := by
  cases xs <;> rfl

section TakeWhere

variable {p : ℕ → Bool} {n : ℕ} {xs : List ℕ}

/-- Nothing is lost and nothing duplicated. -/
theorem takeWhere_perm : ((takeWhere p n xs).1 ++ (takeWhere p n xs).2).Perm xs := by
  induction xs generalizing n with
  | nil => cases n <;> rfl
  | cons x xs ih =>
      cases n with
      | zero => rfl
      | succ n =>
          unfold takeWhere
          split
          · exact (ih (n := n)).cons x
          · exact List.perm_middle.trans ((ih (n := n + 1)).cons x)

theorem takeWhere_fst_sublist : (takeWhere p n xs).1.Sublist xs := by
  induction xs generalizing n with
  | nil => cases n <;> exact List.nil_sublist _
  | cons x xs ih =>
      cases n with
      | zero => exact List.nil_sublist _
      | succ n =>
          unfold takeWhere
          split
          · exact ih.cons_cons x
          · exact ih.cons x

theorem takeWhere_snd_sublist : (takeWhere p n xs).2.Sublist xs := by
  induction xs generalizing n with
  | nil => cases n <;> exact List.nil_sublist _
  | cons x xs ih =>
      cases n with
      | zero => exact List.Sublist.refl _
      | succ n =>
          unfold takeWhere
          split
          · exact ih.cons x
          · exact ih.cons_cons x

theorem length_takeWhere_le (p : ℕ → Bool) (n : ℕ) (xs : List ℕ) :
    (takeWhere p n xs).1.length ≤ n := by
  induction xs generalizing n with
  | nil => cases n <;> exact Nat.zero_le _
  | cons x xs ih =>
      cases n with
      | zero => exact Nat.zero_le _
      | succ n =>
          unfold takeWhere
          split
          · exact Nat.succ_le_succ (ih n)
          · exact ih (n + 1)

/-- Only elements that satisfy `p` are taken. -/
theorem of_mem_takeWhere_fst {x : ℕ} (h : x ∈ (takeWhere p n xs).1) : p x := by
  induction xs generalizing n with
  | nil => cases n <;> exact absurd h List.not_mem_nil
  | cons y xs ih =>
      cases n with
      | zero => exact absurd h List.not_mem_nil
      | succ n =>
          unfold takeWhere at h
          split at h
          case isTrue hy =>
            rcases List.mem_cons.mp h with rfl | h
            · exact hy
            · exact ih h
          case isFalse => exact ih h

/-- Where there is one, one is taken. -/
theorem takeWhere_fst_ne_nil (hn : n ≠ 0) {x : ℕ} (hx : x ∈ xs) (hp : p x) :
    (takeWhere p n xs).1 ≠ [] := by
  obtain ⟨n, rfl⟩ := Nat.exists_eq_succ_of_ne_zero hn
  induction xs with
  | nil => exact absurd hx List.not_mem_nil
  | cons y xs ih =>
      unfold takeWhere
      split
      case isTrue => exact List.cons_ne_nil _ _
      case isFalse hy =>
        refine ih ((List.mem_cons.mp hx).resolve_left ?_)
        rintro rfl
        exact hy hp

/-- What is taken are the first `n` elements that satisfy `p`. -/
theorem takeWhere_fst (p : ℕ → Bool) (n : ℕ) (xs : List ℕ) :
    (takeWhere p n xs).1 = (xs.filter p).take n := by
  induction xs generalizing n with
  | nil => cases n <;> rfl
  | cons e xs ih =>
      cases n with
      | zero => rfl
      | succ n =>
          unfold takeWhere
          by_cases hp : p e = true
          · rw [if_pos hp, List.filter_cons_of_pos hp, ih]
            rfl
          · rw [if_neg hp, List.filter_cons_of_neg hp, ih]

/-- The elements that satisfy `p` become fewer by those taken. -/
theorem countP_takeWhere :
    (takeWhere p n xs).1.length + (takeWhere p n xs).2.countP p = xs.countP p := by
  have hperm : ((takeWhere p n xs).1 ++ (takeWhere p n xs).2).countP p = xs.countP p :=
    takeWhere_perm.countP_eq p
  have htaken : (takeWhere p n xs).1.countP p = (takeWhere p n xs).1.length :=
    List.countP_eq_length.mpr fun _ h => of_mem_takeWhere_fst h
  rw [List.countP_append, htaken] at hperm
  exact hperm

end TakeWhere

end EventTransfer
