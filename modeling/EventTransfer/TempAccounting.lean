import EventTransfer.EventRuns

/-!
# The number of temporary events

`sys->ntemps` counts the temporary events, so that there are never more than the configuration
allows.  It goes up in `et_event_make`, before the event has a file, and goes down wherever events
return to GRAND_CENTRAL: in the conductors, in the two dumps, and when an attachment's events are
restored.  Each of these goes by the event's mark, not by its file.

* `EventSystem.Counted` — the number is that of the files, and every file's event is marked.
* `Drops` — temporary events lose their files, and are no longer counted.
* `temps_counted` — in every run in which no file is created or removed in vain, the number is
  right; and when all temporary events are back in GRAND_CENTRAL it is zero.

A run that goes wrong has a call of `et_event_new` that counts an event whose file cannot be
created (`failed_create_is_counted`).
-/

namespace EventTransfer

open Places StepRun

namespace EventSystem

/-- The events that hold the file of a temporary buffer. -/
def tempFiles (cfg : EventConfig) (s : EventSystem) : Finset ℕ :=
  (Finset.range cfg.nevents).filter fun e => s.file e = true

/-- **The temporary events are counted**: by their files, all of which belong to events that are
marked. -/
structure Counted (cfg : EventConfig) (s : EventSystem) : Prop where
  count : s.ntemps = (s.tempFiles cfg).card
  bound : s.ntemps ≤ cfg.ntemps
  marked : ∀ e, s.file e = true → s.isTemp e = true

/-- **What keeps the count**: files, marks and number are the same. -/
structure SameTemps (s t : EventSystem) : Prop where
  file : t.file = s.file
  isTemp : t.isTemp = s.isTemp
  ntemps : t.ntemps = s.ntemps

/-- **Temporary events lose their files**, and are no longer counted. -/
structure Drops (s t : EventSystem) (es : List ℕ) : Prop where
  file : ∀ x, t.file x = if x ∈ es ∧ s.isTemp x = true then false else s.file x
  isTemp : t.isTemp = s.isTemp
  ntemps : t.ntemps = s.ntemps - es.countP s.isTemp

variable {s t u : EventSystem} {cfg : EventConfig} {os : OsAnswers} {a : ReadArgs}
  {r : StationRead} {ps size i e : ℕ} {pe es : List ℕ} {att : ℤ}

theorem SameTemps.refl (s : EventSystem) : SameTemps s s := ⟨rfl, rfl, rfl⟩

theorem SameTemps.trans (h : SameTemps s t) (h' : SameTemps t u) : SameTemps s u :=
  ⟨h'.file.trans h.file, h'.isTemp.trans h.isTemp, h'.ntemps.trans h.ntemps⟩

/-- A loop over events. -/
theorem SameTemps.foldl {f : EventSystem → ℕ → EventSystem} (h : ∀ s e, SameTemps s (f s e))
    (s : EventSystem) (pe : List ℕ) : SameTemps s (pe.foldl f s) := by
  induction pe generalizing s with
  | nil => exact refl s
  | cons e pe ih => exact (h s e).trans (ih (f s e))

theorem OnlyMoves.sameTemps (h : OnlyMoves s t) : SameTemps s t := by
  rw [h]
  exact ⟨rfl, rfl, rfl⟩

/-- A header is written. -/
theorem setHdr_isTemp (s : EventSystem) (e : ℕ) (k : EventHeader) (x : ℕ) :
    (s.setHdr e k).isTemp x = if x = e then decide (k.temp = .temp) else s.isTemp x := by
  unfold isTemp setHdr
  rcases eq_or_ne x e with rfl | hx
  · simp
  · simp [hx]

/-- A header is written, but not its mark. -/
theorem setHdr_sameTemps {k : EventHeader} (hk : k.temp = (s.hdr e).temp) :
    SameTemps s (s.setHdr e k) := by
  refine ⟨rfl, funext fun x => ?_, rfl⟩
  rw [setHdr_isTemp]
  split
  case isTrue hx =>
    rw [hk, hx]
    rfl
  case isFalse => rfl

theorem setAge_sameTemps (s : EventSystem) (e : ℕ) (age : Age) : SameTemps s (s.setAge e age) :=
  setHdr_sameTemps rfl

theorem restoreAge_sameTemps (s : EventSystem) (e : ℕ) : SameTemps s (s.restoreAge e) :=
  setHdr_sameTemps rfl

theorem Counted.same (h : Counted cfg s) (hsame : SameTemps s t) : Counted cfg t := by
  refine ⟨?_, hsame.ntemps.trans_le h.bound, fun e he => ?_⟩
  · unfold tempFiles
    rw [hsame.ntemps, hsame.file]
    exact h.count
  · rw [hsame.isTemp]
    rw [hsame.file] at he
    exact h.marked e he

theorem Counted.nonneg (h : Counted cfg s) : 0 ≤ s.ntemps := by
  rw [h.count]
  exact Int.natCast_nonneg _

/-- An event that is not marked has no file. -/
theorem Counted.file_false (h : Counted cfg s) (he : s.isTemp e = false) : s.file e = false := by
  cases hfile : s.file e with
  | false => rfl
  | true => exact absurd (h.marked e hfile) (by rw [he]; nofun)

theorem Drops.same (h : SameTemps s t) (hdrops : Drops t u es) : Drops s u es := by
  refine ⟨fun x => ?_, hdrops.isTemp.trans h.isTemp, ?_⟩
  · rw [hdrops.file, h.isTemp, h.file]
  · rw [hdrops.ntemps, h.isTemp, h.ntemps]

theorem Drops.trans_same (hdrops : Drops s t es) (h : SameTemps t u) : Drops s u es := by
  refine ⟨fun x => ?_, h.isTemp.trans hdrops.isTemp, h.ntemps.trans hdrops.ntemps⟩
  rw [h.file]
  exact hdrops.file x

/-- **Files that are removed are no longer counted**, if all the events had one. -/
theorem Counted.drops (h : Counted cfg s) (hdrops : Drops s t es) (hes : es.Nodup)
    (hlt : ∀ e ∈ es, e < cfg.nevents) (hfile : ∀ e ∈ es, s.isTemp e = true → s.file e = true) :
    Counted cfg t := by
  set gone := es.filter s.isTemp
  have hsub : gone.toFinset ⊆ s.tempFiles cfg := by
    intro e he
    rw [List.mem_toFinset, List.mem_filter] at he
    exact Finset.mem_filter.mpr ⟨Finset.mem_range.mpr (hlt e he.1), hfile e he.1 he.2⟩
  have hfiles : t.tempFiles cfg = s.tempFiles cfg \ gone.toFinset := by
    ext e
    simp only [tempFiles, Finset.mem_filter, Finset.mem_sdiff, List.mem_toFinset, hdrops.file,
      gone, List.mem_filter]
    split <;> simp_all
  have hcard : gone.toFinset.card = es.countP s.isTemp := by
    rw [List.toFinset_card_of_nodup (hes.filter _), List.countP_eq_length_filter]
  have hle := Finset.card_le_card hsub
  refine ⟨?_, ?_, fun e he => ?_⟩
  · rw [hfiles, Finset.card_sdiff_of_subset hsub, hdrops.ntemps, h.count]
    omega
  · have := h.bound
    rw [hdrops.ntemps]
    omega
  · rw [hdrops.isTemp]
    rw [hdrops.file] at he
    split at he
    · exact absurd he nofun
    · exact h.marked e he

/-- They have no files then. -/
theorem Counted.dropped (h : Counted cfg s) (hdrops : Drops s t es) (he : e ∈ es) :
    t.file e = false := by
  rw [hdrops.file]
  cases htemp : s.isTemp e with
  | true => rw [if_pos ⟨he, rfl⟩]
  | false =>
      rw [if_neg (by simp)]
      exact h.file_false htemp

/-! ## New events -/

theorem Counted.make (h : Counted cfg s) {create : Bool} (he : e < cfg.nevents)
    (hfile : s.file e = false) (hcreate : s.ntemps < cfg.ntemps → create = true) :
    Counted cfg (s.etEventMake cfg create size e).2 := by
  unfold etEventMake
  split
  case isTrue => exact h
  case isFalse hroom =>
    have hlt := not_le.mp hroom
    rw [hcreate hlt, if_neg nofun]
    have hnew : e ∉ s.tempFiles cfg := by simp [tempFiles, hfile]
    refine ⟨?_, ?_, fun x hx => ?_⟩
    · have hfiles : tempFiles cfg ((((({ s with ntemps := s.ntemps + 1 }.setHdr e
          { EventHeader.init with
            group := (s.hdr e).group, temp := .temp, length := size, memsize := size }).setPdata e
              .tempFile).setFile e true).setMapped e true)) = insert e (s.tempFiles cfg) := by
        ext x
        unfold tempFiles setFile setMapped setPdata setHdr
        simp only [Finset.mem_filter, Finset.mem_insert, Finset.mem_range, Function.update_apply]
        split
        case isTrue hx => simp [hx, he]
        case isFalse hx => simp [hx]
      have hcard := Finset.card_insert_of_notMem hnew
      have hcount := h.count
      dsimp only at hfiles ⊢
      rw [hfiles, hcard]
      unfold setFile setMapped setPdata setHdr
      dsimp only
      omega
    · exact Int.add_one_le_iff.mpr hlt
    · have hmark := setHdr_isTemp { s with ntemps := s.ntemps + 1 } e { EventHeader.init with
        group := (s.hdr e).group, temp := .temp, length := size, memsize := size } x
      refine hmark.trans ?_
      unfold setFile setMapped at hx
      dsimp only at hx
      rw [Function.update_apply] at hx
      split at hx
      case isTrue hxe => rw [if_pos hxe]; rfl
      case isFalse hxe =>
        rw [if_neg hxe]
        exact h.marked x hx

theorem etEventMake_file {create : Bool} {x : ℕ} (hx : x ≠ e) :
    (s.etEventMake cfg create size e).2.file x = s.file x := by
  unfold etEventMake
  split
  · rfl
  · cases create <;> exact Function.update_of_ne hx ..

/-- **Temporary buffers are made** for events that have none, as long as there are not too many,
and no file is created in vain. -/
theorem Counted.makeAll (h : Counted cfg s) (hwaits : os.waits = fun _ => []) (hes : es.Nodup)
    (hlt : ∀ e ∈ es, e < cfg.nevents) (hfile : ∀ e ∈ es, s.file e = false)
    (hcreate : ∀ j < es.length, s.ntemps + j < cfg.ntemps → os.create (i + j) = true) :
    Counted cfg (s.makeAll cfg os size i es).2 ∧
      ∀ x ∉ es, (s.makeAll cfg os size i es).2.file x = s.file x := by
  induction es generalizing s i with
  | nil => exact ⟨h, fun _ _ => rfl⟩
  | cons e es ih =>
      obtain ⟨he, hes⟩ := List.nodup_cons.mp hes
      have hmake : Counted cfg (s.etEventMake cfg (os.create i) size e).2 := by
        refine h.make (hlt e List.mem_cons_self) (hfile e List.mem_cons_self) fun hroom => ?_
        exact hcreate 0 (Nat.succ_pos _) (by simpa using hroom)
      have hone : tryMake cfg (os.create i) size e (os.waits i) s =
          s.etEventMake cfg (os.create i) size e := by rw [hwaits]; rfl
      unfold EventSystem.makeAll
      dsimp only
      rw [hone]
      split
      case isFalse =>
        exact ⟨hmake, fun x hx => etEventMake_file fun h => hx (h ▸ List.mem_cons_self)⟩
      case isTrue hok =>
        obtain ⟨hlt', -⟩ := etEventMake_ok_iff.mp hok
        obtain ⟨hcounted, hother⟩ := @ih (s.etEventMake cfg (os.create i) size e).2 (i + 1) hmake
          hes (fun x hx => hlt x (List.mem_cons_of_mem e hx))
          (fun x hx => by
            have hne : x ≠ e := fun h => he (h ▸ hx)
            rw [etEventMake_file hne]
            exact hfile x (List.mem_cons_of_mem e hx))
          (fun j hj hroom => by
            rw [etEventMake_ntemps hlt'] at hroom
            rw [Nat.add_right_comm, Nat.add_assoc]
            exact hcreate (j + 1) (Nat.succ_lt_succ hj) (by push_cast; omega))
        refine ⟨hcounted, fun x hx => ?_⟩
        rw [hother x fun h => hx (List.mem_cons_of_mem e h)]
        exact etEventMake_file fun h => hx (h ▸ List.mem_cons_self)

/-- Events that need no temporary buffers, and have none. -/
theorem Counted.initOwn (h : Counted cfg s) (hfile : ∀ e ∈ es, s.file e = false) :
    Counted cfg (es.foldl (fun s e => s.initOwn cfg size e) s) ∧
      (es.foldl (fun s e => s.initOwn cfg size e) s).file = s.file := by
  induction es generalizing s with
  | nil => exact ⟨h, rfl⟩
  | cons e es ih =>
      refine ih ⟨h.count, h.bound, fun x hx => ?_⟩ fun x hx => hfile x (List.mem_cons_of_mem e hx)
      have hmark := setHdr_isTemp s e { EventHeader.init with
        group := (s.hdr e).group, length := size, memsize := cfg.eventSize } x
      refine hmark.trans ?_
      rw [if_neg]
      · exact h.marked x hx
      · rintro rfl
        exact absurd (hx.symm.trans (hfile x List.mem_cons_self)) nofun

/-! ## Buffers that are removed -/

/-- The loop of a dump stops at the first temporary event, whose file stays. -/
def stopsAtFirst (s : EventSystem) (os : OsAnswers) : ℕ → List ℕ → Bool
  | _, [] => true
  | i, e :: pe =>
      if s.isTemp e = false then s.stopsAtFirst os (i + 1) pe
      else !(os.munmap i && (s.file e && os.unlink i))

theorem removeAll_file (h : s.stopsAtFirst os i pe = true) :
    (s.removeAll os i pe).2.2.file = s.file := by
  induction pe generalizing i with
  | nil => rfl
  | cons e pe ih =>
      unfold stopsAtFirst at h
      unfold removeAll
      split
      case isTrue htemp =>
        rw [if_pos htemp] at h
        exact ih h
      case isFalse htemp =>
        rw [if_neg htemp, Bool.not_eq_true'] at h
        have hfile : (s.tempRemove os i e).2.file = s.file := by
          unfold tempRemove
          cases hmunmap : os.munmap i with
          | false => rfl
          | true =>
              rw [hmunmap, Bool.true_and] at h
              rw [if_neg Bool.false_ne_true.symm, if_pos h]
              rfl
        obtain ⟨-, hcan⟩ | ⟨hfail, -⟩ := s.tempRemove_cases os i e
        · rw [h] at hcan
          exact Bool.noConfusion hcan
        · dsimp only
          rw [if_pos hfail]
          exact hfile

/-- The loop changes neither marks nor the number of temporary events. -/
theorem removeAll_isTemp : (s.removeAll os i pe).2.2.isTemp = s.isTemp ∧
    (s.removeAll os i pe).2.2.ntemps = s.ntemps := by
  rw [removeAll_onlyRemoves.same]
  exact ⟨rfl, rfl⟩

/-- **A dump removes all buffers or none**, if the checks let it begin. -/
def RemovesAllOrNone (s : EventSystem) (os : OsAnswers) (att : ℤ) (es : List ℕ) : Prop :=
  s.Accepts att es → s.Removable os 0 es ∨ s.stopsAtFirst os 0 es = true

theorem Counted.dump (h : Counted cfg s) (hplace : AllInPlace cfg s) {es : List ℕ}
    (hes : s.Accepts att es → es.Nodup) (hremoves : s.RemovesAllOrNone os att es) :
    Counted cfg (s.etEventsDump cfg os att (some es)).2 ∧
      (∀ x, s.file x = false → (s.etEventsDump cfg os att (some es)).2.file x = false) ∧
      ∀ e ∈ (s.etEventsDump cfg os att (some es)).2.list (.input 0), e ∈ s.list (.input 0) ∨
        (s.etEventsDump cfg os att (some es)).2.file e = false := by
  have hmoves := @etEventsDump_moves s cfg os att hplace es hes
  have hnone : ∀ t : EventSystem, t.file = s.file → t.isTemp = s.isTemp → t.ntemps = s.ntemps →
      SameLists s t → Counted cfg t ∧ (∀ x, s.file x = false → t.file x = false) ∧
        ∀ e ∈ t.list (.input 0), e ∈ s.list (.input 0) ∨ t.file e = false := by
    intro t hfile htemp hntemps hsame
    refine ⟨h.same ⟨hfile, htemp, hntemps⟩, fun x hx => by rw [hfile, hx], fun e he => .inl ?_⟩
    rwa [hsame.list] at he
  unfold etEventsDump at hmoves ⊢
  dsimp only at hmoves ⊢
  by_cases hnil : es = []
  · rw [if_pos hnil]
    exact hnone s rfl rfl rfl (.refl s)
  rw [if_neg hnil] at hmoves ⊢
  by_cases hatt : att < 0
  · rw [if_pos hatt]
    exact hnone s rfl rfl rfl (.refl s)
  rw [if_neg hatt] at hmoves ⊢
  by_cases hbad : ∃ e ∈ es, s.owner e ≠ att
  · rw [if_pos hbad]
    exact hnone s rfl rfl rfl (.refl s)
  have haccepts : s.Accepts att es := by
    refine ⟨not_lt.mp hatt, fun e he => ?_⟩
    by_contra hno
    exact hbad ⟨e, he, hno⟩
  rw [if_neg hbad] at hmoves ⊢
  obtain ⟨htemp, hntemps⟩ := @removeAll_isTemp s os 0 es
  by_cases hok : (s.removeAll os 0 es).1 = .ok
  case neg =>
    rw [if_pos hok]
    have hstops := (hremoves haccepts).resolve_left fun h => hok (removeAll_ok_iff.mpr h)
    exact hnone _ (removeAll_file hstops) htemp hntemps removeAll_same
  case pos =>
    have hdump := @AllInPlace.ndump_ok s cfg os es att hplace haccepts (hes haccepts) hnil
    obtain ⟨hcount, hfile⟩ := removeAll_ok hok
    rw [if_neg (not_not.mpr hok), if_neg (not_not.mpr hdump)] at hmoves ⊢
    set u := ((s.removeAll os 0 es).2.2.stationNdump cfg es).2
    have hu : SameTemps (s.removeAll os 0 es).2.2 u := stationNdump_onlyMoves.sameTemps
    have hdrops : Drops s { u with ntemps := u.ntemps - (s.removeAll os 0 es).2.1 } es := by
      refine ⟨fun x => (congrFun hu.file x).trans (hfile x), hu.isTemp.trans htemp, ?_⟩
      dsimp only
      rw [hu.ntemps, hntemps, hcount]
    have hremovable := removeAll_ok_iff.mp hok
    have hfiles : ∀ e ∈ es, s.isTemp e = true → s.file e = true := by
      intro e he htemp
      obtain ⟨j, hj⟩ := List.mem_iff_getElem?.mp he
      have := hremovable.1 j e hj htemp
      simp only [Bool.and_eq_true] at this
      exact this.2.1
    have hnew := Conserved.of_accepts hplace haccepts
    refine ⟨h.drops hdrops (hes haccepts) (fun e he => (hnew e he).1) hfiles, fun x hx => ?_,
      fun e he => ?_⟩
    · rw [hdrops.file, hx, ite_self]
    · rcases hmoves with hsame | ⟨-, -, hputs⟩
      · rw [hsame.list] at he
        exact .inl he
      · rcases (hputs.mem _ e).mp he with he | ⟨-, he⟩
        · exact .inl he
        · exact .inr (h.dropped hdrops he)

/-- An event that returns to GRAND_CENTRAL has its file if it is marked, and loses it. -/
def Droppable (s : EventSystem) (cleanup : Bool) (os : OsAnswers) (e : ℕ) : Prop :=
  s.isTemp e = true → s.file e = true ∧ os.unlink e = true ∧ (cleanup = true ∨ os.munmap e = true)

theorem dropTemp_spec {cleanup : Bool} (h : s.Droppable cleanup os e) :
    Drops s (s.dropTemp cleanup os e) [e] := by
  unfold dropTemp
  cases htemp : s.isTemp e with
  | false =>
      rw [if_pos rfl]
      refine ⟨fun x => (if_neg ?_).symm, rfl, by simp [htemp]⟩
      rintro ⟨hx, hmark⟩
      rw [List.mem_singleton.mp hx, htemp] at hmark
      exact Bool.noConfusion hmark
  | true =>
      obtain ⟨hfile, hunlink, hcan⟩ := h htemp
      have hset : ∀ x, Function.update s.file e false x =
          if x ∈ [e] ∧ s.isTemp x = true then false else s.file x := by
        intro x
        rw [Function.update_apply]
        rcases eq_or_ne x e with rfl | hx
        · simp [htemp]
        · simp [hx]
      rw [if_neg nofun]
      cases cleanup with
      | true =>
          refine ⟨fun x => (hset x).symm ▸ ?_, rfl, ?_⟩
          · simp only [if_true, hfile, hunlink]
            rfl
          · simp [htemp, setFile]
      | false =>
          have hmunmap : os.munmap e = true := hcan.resolve_left nofun
          have hremove : s.tempRemove os e e = (.ok, (s.setMapped e false).setFile e false) := by
            unfold tempRemove
            simp [hmunmap, hfile, hunlink]
          simp only [Bool.false_eq_true, if_false, hremove]
          exact ⟨hset, rfl, by simp [htemp, setFile, setMapped]⟩

theorem Droppable.congr {cleanup : Bool} (h : s.Droppable cleanup os e)
    (hfile : t.file e = s.file e) (htemp : t.isTemp e = s.isTemp e) :
    t.Droppable cleanup os e := fun hmark => by
  rw [hfile]
  exact h (htemp.symm.trans hmark)

/-- **Events that return to GRAND_CENTRAL** lose their files. -/
theorem dropAll_spec {cleanup : Bool} (hes : es.Nodup)
    (h : ∀ e ∈ es, s.Droppable cleanup os e) :
    Drops s (es.foldl (fun s e => s.dropTemp cleanup os e) s) es := by
  induction es generalizing s with
  | nil => exact ⟨fun x => by simp, rfl, by simp⟩
  | cons e es ih =>
      obtain ⟨he, hes⟩ := List.nodup_cons.mp hes
      have hone := dropTemp_spec (h e List.mem_cons_self)
      have hother : ∀ x ∈ es, (s.dropTemp cleanup os e).file x = s.file x := by
        intro x hx
        have hne : x ≠ e := fun h => he (h ▸ hx)
        rw [hone.file, if_neg (by simp [hne])]
      have hrest := @ih (s.dropTemp cleanup os e) hes fun x hx =>
        (h x (List.mem_cons_of_mem e hx)).congr (hother x hx) (congrFun hone.isTemp x)
      refine ⟨fun x => ?_, hrest.isTemp.trans hone.isTemp, ?_⟩
      · refine (hrest.file x).trans ?_
        rw [hone.isTemp, hone.file]
        rcases eq_or_ne x e with rfl | hxe
        · simp [he]
        · simp [hxe]
      · refine hrest.ntemps.trans ?_
        rw [hone.isTemp, hone.ntemps, List.countP_cons, List.countP_cons, List.countP_nil]
        push_cast
        omega

theorem Counted.dropAll {cleanup : Bool} (h : Counted cfg s) (hes : es.Nodup)
    (hlt : ∀ e ∈ es, e < cfg.nevents) (hdrop : ∀ e ∈ es, s.Droppable cleanup os e) :
    Drops s (es.foldl (fun s e => s.dropTemp cleanup os e) s) es ∧
      Counted cfg (es.foldl (fun s e => s.dropTemp cleanup os e) s) :=
  have hdrops := dropAll_spec hes hdrop
  ⟨hdrops, h.drops hdrops hes hlt fun e he htemp => (hdrop e he htemp).1⟩

/-! ## Event calls -/

/-- **Temporary events are in order**: every event is in one place, the temporary ones are counted,
and in GRAND_CENTRAL's list no event has a file. -/
structure TempsInOrder (cfg : EventConfig) (s : EventSystem) : Prop where
  place : AllInPlace cfg s
  counted : Counted cfg s
  home : ∀ e ∈ s.list (.input 0), s.file e = false

/-- **No file is created in vain**, of those for which there are not too many. -/
def CreatesFiles (s : EventSystem) (cfg : EventConfig) (os : OsAnswers) (a : ReadArgs)
    (r : StationRead) (size : ℕ) : Prop :=
  a.accepted = true → (s.attach a.att.toNat).active = true → cfg.eventSize < size →
    ∀ j < (s.taken a r 0).length, s.ntemps + j < cfg.ntemps → os.create j = true

theorem TempsInOrder.newCall (h : TempsInOrder cfg s) (hwaits : os.waits = fun _ => [])
    (hcreates : s.CreatesFiles cfg os a r size) :
    Counted cfg (s.newCall cfg os a r size).2 ∧
      ∀ e ∈ (s.newCall cfg os a r size).2.list (.input 0),
        (s.newCall cfg os a r size).2.file e = false := by
  rcases s.newCall_cases cfg os a r size with heq | ⟨⟨haccepted, hactive, htaken⟩, heq⟩
  · rw [heq]
    exact ⟨h.counted, h.home⟩
  rw [heq]
  set es := s.taken a r 0 with hes
  set u := s.afterRead a r 0 with hu
  have hperm := taken_perm htaken
  have hin : ∀ e ∈ es, e ∈ s.list (.input 0) := fun e he =>
    hperm.mem_iff.mp (List.mem_append_left _ he)
  have hnodup : es.Nodup := (hperm.nodup_iff.mpr (h.place.separate.nodup _)).sublist
    (List.sublist_append_left ..)
  have hfile : ∀ e ∈ es, u.file e = false := fun e he => h.home e (hin e he)
  have hcounted : Counted cfg u := h.counted.same ⟨rfl, rfl, rfl⟩
  -- what stays in the list has not been taken
  have hlist : ∀ e ∈ (u.makeBuffers cfg os size es).2.list (.input 0),
      e ∈ s.list (.input 0) ∧ e ∉ es := by
    intro e he
    rw [makeBuffers_same.list] at he
    exact (mem_take hperm h.place.separate _ e).mp he
  unfold makeBuffers at hlist ⊢
  split at hlist
  case isTrue hsize =>
    rw [if_pos hsize]
    obtain ⟨hmade, hother⟩ := @Counted.makeAll u cfg os size 0 es hcounted hwaits hnodup
      (fun e he => (h.place.listed _ e (hin e he)).2) hfile fun j hj hroom => by
        rw [Nat.zero_add]
        exact hcreates haccepted hactive hsize j hj hroom
    refine ⟨hmade, fun e he => ?_⟩
    obtain ⟨hold, hnot⟩ := hlist e he
    rw [hother e hnot]
    exact h.home e hold
  case isFalse hsize =>
    rw [if_neg hsize]
    obtain ⟨hmade, hsame⟩ := @Counted.initOwn u cfg size es hcounted hfile
    refine ⟨hmade, fun e he => ?_⟩
    dsimp only
    rw [hsame]
    exact h.home e (hlist e he).1

theorem attachAll_sameTemps : SameTemps s (s.attachAll os i pe).2 := by
  induction pe generalizing s i with
  | nil => exact .refl s
  | cons e pe ih =>
      have hown : SameTemps s (s.setPdata e .own) := ⟨rfl, rfl, rfl⟩
      have hmap : SameTemps s ((s.setPdata e .tempFile).setMapped e true) := ⟨rfl, rfl, rfl⟩
      unfold attachAll
      split
      · exact hown.trans ih
      · split
        · exact .refl s
        · exact hmap.trans ih

theorem unmap_sameTemps (s : EventSystem) (c : Bool) (e : ℕ) :
    SameTemps s (if c then s.setMapped e false else s) := by
  cases c <;> exact ⟨rfl, rfl, rfl⟩

theorem unmapAll_sameTemps : SameTemps s (s.unmapAll os i pe).2 := by
  induction pe generalizing s i with
  | nil => exact .refl s
  | cons e pe ih =>
      unfold unmapAll
      split
      · exact .refl s
      · refine ((unmap_sameTemps s (s.isTemp e) e).trans (setHdr_sameTemps ?_)).trans ih
        rfl

/-- A call that gets events leaves the temporary ones alone. -/
theorem getCall_sameTemps : SameTemps s (s.getCall os a r).2 := by
  rcases s.getCall_cases os a r with heq | ⟨-, heq⟩
  · rw [heq]
    exact .refl s
  · have hread : SameTemps s (s.afterRead a r (s.statOf a.att)) := ⟨rfl, rfl, rfl⟩
    rw [heq]
    exact hread.trans attachAll_sameTemps

/-- And so do the calls that put events. -/
theorem etEventsPut_sameTemps {es : Option (List ℕ)} :
    SameTemps s (s.etEventsPut cfg os att es).2 := by
  cases es with
  | none => exact .refl s
  | some es =>
      have hunmap : SameTemps s (s.unmapAll os 0 es).2 := unmapAll_sameTemps
      have hput : SameTemps s ((s.unmapAll os 0 es).2.stationNwrite cfg (s.statOf att) es).2 :=
        hunmap.trans stationNwrite_onlyMoves.sameTemps
      unfold etEventsPut
      dsimp only
      split
      · exact .refl s
      split
      · exact .refl s
      split
      · exact .refl s
      split
      · exact hunmap
      split
      · exact hput.trans (.foldl restoreAge_sameTemps _ _)
      · exact hput

theorem etEventPut_sameTemps {e : Option ℕ} : SameTemps s (s.etEventPut cfg os att e).2 := by
  cases e with
  | none => exact .refl s
  | some e =>
      have hput : ∀ t : EventSystem, SameTemps s t →
          SameTemps s ((t.setAge e .used).stationNwrite cfg (s.statOf att) [e]).2 := fun t ht =>
        (ht.trans (setAge_sameTemps t e .used)).trans stationNwrite_onlyMoves.sameTemps
      unfold etEventPut
      dsimp only
      set t := if s.isTemp e then s.setMapped e false else s
      have hage := hput t (unmap_sameTemps s (s.isTemp e) e)
      split
      · exact .refl s
      split
      · exact .refl s
      split
      · exact .refl s
      split
      · exact .refl s
      split
      · exact hage.trans (setAge_sameTemps ..)
      · exact hage

/-- Events are put into a list that is not GRAND_CENTRAL's, or nothing has moved. -/
theorem TempsInOrder.of_same (h : TempsInOrder cfg s) (hplace : AllInPlace cfg t)
    (hsame : SameTemps s t) (hlist : ∀ e ∈ t.list (.input 0), e ∈ s.list (.input 0)) :
    TempsInOrder cfg t :=
  ⟨hplace, h.counted.same hsame, fun e he => by
    rw [hsame.file]
    exact h.home e (hlist e he)⟩

/-- The dump of one event removes its buffer or none. -/
theorem removesAllOrNone_single (s : EventSystem) (os : OsAnswers) (att : ℤ) (e : ℕ) :
    s.RemovesAllOrNone os att [e] := by
  intro _
  unfold stopsAtFirst stopsAtFirst
  cases htemp : s.isTemp e with
  | false => exact .inr (if_pos rfl)
  | true =>
      rw [if_neg nofun, removable_cons_temp htemp, Bool.not_eq_true']
      cases hcan : os.munmap 0 && (s.file e && os.unlink 0) with
      | false => exact .inr rfl
      | true => exact .inl ⟨rfl, removable_nil⟩

end EventSystem

open EventSystem

/-- **The calls that keep the count.** -/
def LocalCall.KeepsTemps (cfg : EventConfig) (os : OsAnswers) (s : EventSystem) :
    LocalCall → Prop
  | .new a size => s.CreatesFiles cfg os a .read size
  | .newMany a size num =>
      0 < num → s.CreatesFiles cfg os a (.nread (numAvailable cfg size num.toNat)) size
  | .newGroup a size num group =>
      0 < num → 1 ≤ group → group ≤ cfg.groupCount →
        s.CreatesFiles cfg os a
          (.nreadGroup (a.scanned.foldl min (numAvailable cfg size num.toNat)) group.toNat) size
  | .dumpMany att pe => ∀ es, pe = some es → s.RemovesAllOrNone os att es
  | _ => True

theorem EventSystem.TempsInOrder.call {cfg : EventConfig} {s : EventSystem} {os : OsAnswers}
    (h : TempsInOrder cfg s) (hwaits : os.waits = fun _ => []) (c : LocalCall)
    (honce : c.NamesOnce s) (hkeeps : c.KeepsTemps cfg os s) :
    TempsInOrder cfg (c.perform cfg os s).2 := by
  have hplace := h.place.call os c honce
  have hnew : ∀ a r size, AllInPlace cfg (s.newCall cfg os a r size).2 →
      s.CreatesFiles cfg os a r size → TempsInOrder cfg (s.newCall cfg os a r size).2 :=
    fun a r size hplace hcreates =>
      have hcall := h.newCall hwaits hcreates
      ⟨hplace, hcall.1, hcall.2⟩
  have hget : ∀ a r, AllInPlace cfg (s.getCall os a r).2 →
      TempsInOrder cfg (s.getCall os a r).2 := by
    intro a r hplace
    refine h.of_same hplace getCall_sameTemps fun e he => ?_
    rcases s.getCall_cases os a r with heq | ⟨⟨-, -, hstat, htaken⟩, heq⟩
    · rwa [heq] at he
    · rw [heq, attachAll_same.list] at he
      exact ((mem_take (taken_perm htaken) h.place.separate _ e).mp he).1
  have hdump : ∀ att es, (s.Accepts att es → es.Nodup) → s.RemovesAllOrNone os att es →
      AllInPlace cfg (s.etEventsDump cfg os att (some es)).2 →
        TempsInOrder cfg (s.etEventsDump cfg os att (some es)).2 := by
    intro att es hes hremoves hplace
    obtain ⟨hcounted, hfile, hlist⟩ := h.counted.dump h.place hes hremoves
    exact ⟨hplace, hcounted, fun e he => (hlist e he).elim (fun hold => hfile e (h.home e hold)) id⟩
  cases c with
  | new a size => exact hnew a .read size hplace hkeeps
  | newMany a size num =>
      unfold LocalCall.perform etEventsNew at hplace ⊢
      dsimp only at hplace ⊢
      split
      case isTrue => exact h
      case isFalse hzero =>
        split
        case isTrue => exact h
        case isFalse hneg =>
          rw [if_neg hzero, if_neg hneg] at hplace
          exact hnew _ _ _ hplace (hkeeps (by omega))
  | newGroup a size num group =>
      unfold LocalCall.perform etEventsNewGroup at hplace ⊢
      dsimp only at hplace ⊢
      split
      case isTrue => exact h
      case isFalse hzero =>
        split
        case isTrue => exact h
        case isFalse hneg =>
          split
          case isTrue => exact h
          case isFalse hmany =>
            rw [if_neg hzero, if_neg hneg, if_neg hmany] at hplace
            exact hnew _ _ _ hplace (hkeeps (by omega) (by omega) (by omega))
  | get a => exact hget a .read hplace
  | getMany a num =>
      unfold LocalCall.perform etEventsGet at hplace ⊢
      dsimp only at hplace ⊢
      split
      case isTrue => exact h
      case isFalse hzero =>
        split
        case isTrue => exact h
        case isFalse hneg =>
          rw [if_neg hzero, if_neg hneg] at hplace
          exact hget _ _ hplace
  | put att pe =>
      refine h.of_same hplace etEventPut_sameTemps fun e he => ?_
      cases pe with
      | none => exact he
      | some x =>
          rcases etEventPut_moves h.place with hsame | ⟨-, hputs⟩
          · exact hsame.list ▸ he
          · exact ((hputs.mem _ e).mp he).resolve_right fun hno => ListName.noConfusion hno.1
  | putMany att pe =>
      refine h.of_same hplace etEventsPut_sameTemps fun e he => ?_
      cases pe with
      | none => exact he
      | some es =>
          rcases etEventsPut_moves h.place (honce es rfl) with hsame | ⟨-, -, hputs⟩
          · exact hsame.list ▸ he
          · exact ((hputs.mem _ e).mp he).resolve_right fun hno => ListName.noConfusion hno.1
  | dump att pe =>
      cases pe with
      | none => exact h
      | some e =>
          have heq := etEventDump_eq h.place os att e
          unfold LocalCall.perform at hplace ⊢
          dsimp only at hplace ⊢
          rw [heq] at hplace ⊢
          exact hdump att [e] (fun _ => List.nodup_singleton e)
            (s.removesAllOrNone_single os att e) hplace
  | dumpMany att pe =>
      cases pe with
      | none => exact h
      | some es => exact hdump att es (honce es rfl) (hkeeps es rfl) hplace

namespace EventSystem

variable {s : EventSystem} {cfg : EventConfig} {os : OsAnswers} {me att : ℕ}
  {given : ℕ → List ℕ} {cleanup : Bool} {interrupt : Option NoEvent}

/-! ## Conductors and detaches -/

theorem TempsInOrder.conduct {u : Pass} (h : TempsInOrder cfg s)
    (hpass : PassedOn s (s.afterPass os me u) me given) (hreturned : s.returned u = given 0)
    (hdrop : ∀ e ∈ s.returned u, s.Droppable true os e) :
    TempsInOrder cfg (s.afterPass os me u) := by
  rw [hreturned] at hdrop
  have hin : ∀ e ∈ given 0, e ∈ s.list (.output me) := fun e he =>
    (hpass.deals.all e).mpr ⟨0, he⟩
  obtain ⟨hdrops, hcounted⟩ := h.counted.dropAll (hpass.deals.separate.nodup 0)
    (fun e he => (h.place.listed _ e (hin e he)).2) hdrop
  have hsame : SameTemps ((given 0).foldl (fun s e => s.dropTemp true os e) s)
      (s.afterPass os me u) := by
    unfold afterPass
    rw [hreturned]
    exact ⟨rfl, rfl, rfl⟩
  refine ⟨h.place.conduct hpass, hcounted.same hsame, fun e he => ?_⟩
  rw [hsame.file]
  rcases List.mem_append.mp ((hpass.input 0).mem_iff.mp he) with hold | hnew
  · rw [hdrops.file, h.home e hold, ite_self]
  · exact h.counted.dropped hdrops hnew

theorem keepTemp_sameTemps (s : EventSystem) (cleanup : Bool) (os : OsAnswers) (e : ℕ) :
    SameTemps s (s.keepTemp cleanup os e) :=
  (unmap_sameTemps s (s.isTemp e && !cleanup && os.munmap e) e).trans (setHdr_sameTemps rfl)

/-- The events got: their buffers are removed if they return to GRAND_CENTRAL, and else kept. -/
theorem Counted.restoreUsed {ps : ℕ} {pe : List ℕ} (h : Counted cfg s) (hpe : pe.Nodup)
    (hlt : ∀ e ∈ pe, e < cfg.nevents)
    (hdrop : (s.stations.config ps).restoreMode = .gc ∨ ps = 0 →
      ∀ e ∈ pe, s.Droppable cleanup os e) :
    Counted cfg (s.restoreUsed cfg cleanup os ps pe) ∧
      (∀ x, s.file x = false → (s.restoreUsed cfg cleanup os ps pe).file x = false) ∧
      ((s.stations.config ps).restoreMode = .gc ∨ ps = 0 →
        ∀ e ∈ pe, (s.restoreUsed cfg cleanup os ps pe).file e = false) := by
  have hkeep : SameTemps s (pe.foldl (fun s e => s.keepTemp cleanup os e) s) :=
    .foldl (fun s e => keepTemp_sameTemps s cleanup os e) s pe
  have hkept : ∀ t, SameTemps s t → ¬ ((s.stations.config ps).restoreMode = .gc ∨ ps = 0) →
      Counted cfg t ∧ (∀ x, s.file x = false → t.file x = false) ∧
        ((s.stations.config ps).restoreMode = .gc ∨ ps = 0 → ∀ e ∈ pe, t.file e = false) :=
    fun t ht hno => ⟨h.same ht, fun x hx => by rw [ht.file, hx], fun hgc => absurd hgc hno⟩
  unfold EventSystem.restoreUsed
  dsimp only
  split
  case isTrue hgc =>
    obtain ⟨hdrops, hcounted⟩ := h.dropAll hpe hlt (hdrop hgc)
    have hdump := (@stationNdump_onlyMoves (pe.foldl (fun s e => s.dropTemp cleanup os e) s) cfg
      pe).sameTemps
    refine ⟨hcounted.same hdump, fun x hx => ?_, fun _ e he => ?_⟩
    · rw [hdump.file, hdrops.file, hx, ite_self]
    · rw [hdump.file]
      exact h.dropped hdrops he
  case isFalse hgc =>
    split
    case isTrue => exact hkept _ (hkeep.trans stationNwrite_onlyMoves.sameTemps) hgc
    case isFalse =>
      split
      case isTrue =>
        split
        case isTrue =>
          exact hkept _ ((hkeep.trans restore_onlyMoves.sameTemps).trans
            stationNwrite_onlyMoves.sameTemps) hgc
        case isFalse => exact hkept _ (hkeep.trans restore_onlyMoves.sameTemps) hgc
      case isFalse => exact hkept _ (hkeep.trans restore_onlyMoves.sameTemps) hgc

/-- The events of an attachment that return to GRAND_CENTRAL when it is detached. -/
def Returns (s : EventSystem) (cfg : EventConfig) (att ps e : ℕ) : Prop :=
  e ∈ s.found cfg att .new ∨
    ((s.stations.config ps).restoreMode = .gc ∨ ps = 0) ∧ e ∈ s.found cfg att .used

theorem Counted.restoreEvents {ps : ℕ} (h : Counted cfg s)
    (hdrop : ∀ e, s.Returns cfg att ps e → s.Droppable cleanup os e) :
    Counted cfg (s.etRestoreEvents cfg cleanup os att ps) ∧
      (∀ x, s.file x = false → (s.etRestoreEvents cfg cleanup os att ps).file x = false) ∧
      ∀ e, s.Returns cfg att ps e →
        (s.etRestoreEvents cfg cleanup os att ps).file e = false := by
  set new := s.found cfg att .new with hnew
  set used := s.found cfg att .used with hused
  set t := s.give used etSys with ht
  set u := new.foldl (fun s e => s.dropTemp cleanup os e) t with hu
  set v := (u.stationNdump cfg new).2 with hv
  have hgive : SameTemps s t := ⟨rfl, rfl, rfl⟩
  obtain ⟨hdrops, hcounted⟩ := @Counted.dropAll t cfg os new cleanup (h.same hgive) found_nodup
    (fun e he => (mem_found.mp he).1)
    fun e he => (hdrop e (.inl he)).congr rfl rfl
  have hdump : SameTemps u v := stationNdump_onlyMoves.sameTemps
  have hdrops' : Drops s v new := (hdrops.same hgive).trans_same hdump
  have hvstations : v.stations = s.stations := by
    have hsame : SameLists t u := .foldl (fun s e => dropTemp_same s cleanup os e) t new
    rw [hv, stationNdump_onlyMoves, hsame.stations]
    rfl
  have hvcounted : Counted cfg v := hcounted.same hdump
  have hvfile : ∀ x, s.file x = false → v.file x = false := fun x hx => by
    rw [hdrops'.file, hx, ite_self]
  have hvnew : ∀ e ∈ new, v.file e = false := fun e he => h.dropped hdrops' he
  unfold etRestoreEvents
  dsimp only
  rw [← hnew, ← hused, ← ht, ← hu, ← hv]
  split
  case isTrue hnil =>
    refine ⟨hvcounted, hvfile, fun e he => ?_⟩
    rcases he with he | ⟨-, he⟩
    · exact hvnew e he
    · rw [← hused, hnil] at he
      exact absurd he List.not_mem_nil
  case isFalse =>
    have hperm : (s.ordered used).Perm used := ordered_perm
    obtain ⟨hall, hfile, hgone⟩ := @Counted.restoreUsed v cfg os cleanup ps (s.ordered used)
      hvcounted (hperm.nodup_iff.mpr found_nodup)
      (fun e he => (mem_found.mp (hperm.mem_iff.mp he)).1) fun hgc e he => by
        have hmem := hperm.mem_iff.mp he
        have hnot : e ∉ new := fun hn => Age.noConfusion
          ((mem_found.mp hn).2.2.symm.trans (mem_found.mp hmem).2.2)
        rw [hvstations] at hgc
        refine (hdrop e (.inr ⟨hgc, hmem⟩)).congr ?_ (congrFun hdrops'.isTemp e)
        rw [hdrops'.file, if_neg fun hn => hnot hn.1]
    refine ⟨hall, fun x hx => hfile x (hvfile x hx), fun e he => ?_⟩
    rcases he with he | ⟨hgc, he⟩
    · exact hfile e (hvnew e he)
    · rw [← hvstations] at hgc
      exact hgone hgc e (hperm.mem_iff.mpr he)

theorem TempsInOrder.detach (h : TempsInOrder cfg s)
    (hdrop : ∀ ps, (s.attach att).stat = some ps → ∀ e, s.Returns cfg att ps e →
      s.Droppable cleanup os e) :
    TempsInOrder cfg (s.etStationDetach cfg cleanup interrupt os att).2 := by
  have hplace := @AllInPlace.detach s cfg os att cleanup interrupt h.place
  rcases s.etStationDetach_cases cfg cleanup interrupt os att with heq | ⟨ps, -, hstat, heq⟩
  case inl =>
    rw [heq]
    exact h
  case inr =>
    rw [heq] at hplace ⊢
    -- the flush leaves alone what the rest depends on
    obtain ⟨hall, howner, hlist, hmoves⟩ := h.place.beforeRestore interrupt att ps
    have htemps : SameTemps s (s.beforeRestore cfg interrupt att ps) :=
      (show SameTemps s (s.released att ps) from ⟨rfl, rfl, rfl⟩).trans hmoves.sameTemps
    set u := s.beforeRestore cfg interrupt att ps
    have hfound : ∀ age, u.found cfg att age = s.found cfg att age := fun age => by
      unfold found
      rw [howner, hmoves]
      rfl
    have hreturns : ∀ e, u.Returns cfg att ps e ↔ s.Returns cfg att ps e := fun e => by
      unfold Returns
      rw [hfound, hfound, hmoves]
      rfl
    obtain ⟨hcounted, hfile, hgone⟩ := @Counted.restoreEvents u cfg os att cleanup ps
      (h.counted.same htemps) fun e he =>
        (hdrop ps hstat e ((hreturns e).mp he)).congr (congrFun htemps.file e)
          (congrFun htemps.isTemp e)
    obtain ⟨-, -, hback⟩ := @Conserved.restoreEvents u cfg os ps att cleanup _ hall
    refine ⟨hplace, hcounted.same ⟨rfl, rfl, rfl⟩, fun e he => ?_⟩
    rcases hback e he with hold | hnew
    · rw [hlist] at hold
      refine hfile e ?_
      rw [htemps.file]
      exact h.home e hold
    · exact hgone e hnew

end EventSystem

open EventSystem

/-! ## Runs -/

/-- **The steps that keep the count**, of those that lose no event.  A call creates no file in vain,
and does not fail when it has removed some files but not all; and a marked event that returns to
GRAND_CENTRAL has a file, which can be removed. -/
def EventStep.KeepsTemps (cfg : EventConfig) (s : EventSystem) : EventStep → Prop
  | .call c os => c.KeepsTemps cfg os.alone s
  | .conduct me gs select eventsTry os => ∀ u, s.pass cfg select gs me eventsTry = some u →
      ∀ e ∈ s.returned u, s.Droppable true os e
  | .detach att cleanup _ os => ∀ ps, (s.attach att).stat = some ps →
      ∀ e, s.Returns cfg att ps e → s.Droppable cleanup os e
  | .attach _ | .setFields .. => True

theorem etStationAttach_same (cfg : EventConfig) (s : EventSystem) (ps : ℕ) :
    SameTemps s (s.etStationAttach cfg ps).2 ∧ (s.etStationAttach cfg ps).2.list = s.list := by
  unfold etStationAttach
  split
  · exact ⟨.refl s, rfl⟩
  split
  · exact ⟨.refl s, rfl⟩
  split
  · exact ⟨.refl s, rfl⟩
  split
  · exact ⟨.refl s, rfl⟩
  split
  · exact ⟨.refl s, rfl⟩
  · exact ⟨⟨rfl, rfl, rfl⟩, rfl⟩

theorem EventSystem.TempsInOrder.next {cfg : EventConfig} {s t : EventSystem}
    (h : TempsInOrder cfg s) (a : EventStep) (hevents : a.KeepsEvents cfg s)
    (htemps : a.KeepsTemps cfg s) (hfits : a.Fits s) (hnext : a.next cfg s = some t) :
    TempsInOrder cfg t := by
  cases a with
  | call c os =>
      obtain rfl := Option.some.inj hnext
      exact h.call rfl c hevents htemps
  | conduct me gs select eventsTry os =>
      obtain ⟨u, hu, rfl⟩ := Option.map_eq_some_iff.mp hnext
      obtain ⟨given, hpass, hreturned⟩ := pass_passedOn h.place hfits.1 hfits.2 hevents hu os
      exact h.conduct hpass hreturned (htemps u hu)
  | attach ps =>
      obtain rfl := Option.some.inj hnext
      obtain ⟨hsame, hlist⟩ := etStationAttach_same cfg s ps
      refine h.of_same (h.place.attach ps) hsame fun e he => ?_
      rwa [hlist] at he
  | detach att cleanup interrupt os =>
      obtain rfl := Option.some.inj hnext
      exact h.detach htemps
  | setFields e priority datastatus length control =>
      obtain rfl := Option.some.inj hnext
      exact h.of_same (h.place.same (setHdr_same ..)) (setHdr_sameTemps rfl) fun _ he => he

theorem EventSystem.Fresh.tempsInOrder {cfg : EventConfig} {s : EventSystem} (h : s.Fresh cfg) :
    TempsInOrder cfg s := by
  refine ⟨h.allInPlace, ⟨?_, ?_, fun e he => ?_⟩, fun e _ => h.file e⟩
  · have hnone : s.tempFiles cfg = ∅ := by
      unfold tempFiles
      exact Finset.filter_false_of_mem fun e _ => by rw [h.file e]; nofun
    rw [h.ntemps, hnone]
    rfl
  · rw [h.ntemps]
    exact Int.natCast_nonneg _
  · rw [h.file e] at he
    exact Bool.noConfusion he

/-- **The temporary events are counted.**  In every run whose steps keep the count, `sys->ntemps` is
the number of events with a temporary file in every state reached, and at most the number that the
configuration allows.  When all events that are marked are back in GRAND_CENTRAL's list it is zero,
and a temporary event can be made. -/
theorem temps_counted {cfg : EventConfig} {s : EventSystem}
    (h : (eventMachine cfg).Reach (fun s a => a.KeepsEvents cfg s ∧ a.KeepsTemps cfg s) s) :
    s.ntemps = (s.tempFiles cfg).card ∧ 0 ≤ s.ntemps ∧ s.ntemps ≤ cfg.ntemps ∧
      ((∀ e < cfg.nevents, s.isTemp e = true → e ∈ s.list (.input 0)) →
        s.ntemps = 0 ∧ (0 < cfg.ntemps → ∀ size e, (s.etEventMake cfg true size e).1 = .ok)) := by
  have hall : TempsInOrder cfg s := by
    refine h.invariant (fun s hs => hs.tempsInOrder) fun s a t hs ha hstep => ?_
    exact hs.next a ha.1 ha.2 hstep.1 hstep.2
  refine ⟨hall.counted.count, hall.counted.nonneg, hall.counted.bound, fun hback => ?_⟩
  have hnone : s.tempFiles cfg = ∅ := by
    refine Finset.filter_false_of_mem fun e he hfile => ?_
    have hhome := hall.home e (hback e (Finset.mem_range.mp he) (hall.counted.marked e hfile))
    exact absurd (hfile.symm.trans hhome) nofun
  have hzero : s.ntemps = 0 := by
    rw [hall.counted.count, hnone]
    rfl
  exact ⟨hzero, fun hpos size e => etEventMake_ok_iff.mpr ⟨by omega, rfl⟩⟩

/-- One temporary event is made, put, and given to GRAND_CENTRAL by a conductor: it is no longer
counted then. -/
theorem temps_counted_example :
    ∃ s, (eventMachine freshConfig).Reach
        (fun s a => a.KeepsEvents freshConfig s ∧ a.KeepsTemps freshConfig s) s ∧
      s.isTemp 0 = true ∧ s.list (.input 0) = [1, 0] ∧ s.ntemps = 0 ∧
        (s.tempFiles freshConfig).card = 0 := by
  have h0 : (eventMachine freshConfig).Reach
      (fun s a => a.KeepsEvents freshConfig s ∧ a.KeepsTemps freshConfig s) startedEvents :=
    .start fresh_startedEvents
  have h1 := eventMachine_next h0 (.attach 1) ⟨trivial, trivial⟩ trivial rfl
  have h2 := eventMachine_next h1 (.call (askForEvent 2000) .fine) ⟨trivial, fun _ _ _ _ _ _ => rfl⟩
    trivial rfl
  have h3 := eventMachine_next h2 (.call (.put 0 (some 0)) .fine) ⟨trivial, trivial⟩ trivial rfl
  have h4 := eventMachine_next h3
    (.conduct 1 [(0, []), (1, [])] (fun _ _ => true) (fun _ => 0) .fine) ⟨trivial, ?_⟩
    ⟨?_, by decide⟩ rfl
  · obtain ⟨hcount, -, -, hzero⟩ := temps_counted h4
    have hback := (hzero (by decide)).1
    refine ⟨_, h4, by decide, by decide, hback, ?_⟩
    rw [hback] at hcount
    exact_mod_cast hcount.symm
  · intro u hu e he
    obtain rfl := Option.some.inj hu
    obtain rfl := List.mem_singleton.mp he
    exact fun _ => ⟨rfl, rfl, .inl rfl⟩
  · exact chainOk_startedEvents.congr (fun _ _ => rfl) (fun _ _ => rfl) (fun _ _ => rfl)
      (fun _ _ => rfl) (fun _ _ => rfl) rfl

/-- **An event that is counted, and has no file**: the file of a temporary event cannot be created.
The event is dumped, so that all events are back in GRAND_CENTRAL's list; but no temporary event
can be made any more, in a system that is to have one at a time. -/
theorem failed_create_is_counted :
    ∃ s, (eventMachine freshConfig).Reach (fun _ _ => True) s ∧ s.ntemps = 1 ∧
      s.tempFiles freshConfig = ∅ ∧ s.list (.input 0) = [1, 0] ∧
        ∀ size e, (s.etEventMake freshConfig true size e).1 = .errorToomany := by
  have h0 : (eventMachine freshConfig).Reach (fun _ _ => True) startedEvents :=
    .start fresh_startedEvents
  have h1 := eventMachine_next h0 (.attach 1) trivial trivial rfl
  have h2 := eventMachine_next h1
    (.call (askForEvent 2000) { OsAnswers.fine with create := fun _ => false }) trivial trivial rfl
  have h3 := eventMachine_next h2 (.call (.dump 0 (some 0)) .fine) trivial trivial rfl
  refine ⟨_, h3, by decide, by decide, by decide, fun size e => ?_⟩
  exact etEventMake_toomany_iff.mpr (by decide)

end EventTransfer
