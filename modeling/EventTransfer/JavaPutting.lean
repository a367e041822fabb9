import EventTransfer.JavaGetting

/-!
# Putting events to the Java server

The routines of `et_remote.c` and of `EtSystem.java` that put events, run against the command
loop of the Java server; and both directions together.

* `ClientEvent.toServer` — what the Java system should have of an event that is put.
* `run_javaReadPut` — what the server does with one event on the stream.
* `javaEvents_survive_iff` — when events survive the Java server.
-/

namespace EventTransfer

open Wire Exchange

variable {τ : Type}

/-! ## Reading an event that is put -/

/-- What the Java system has of an event of a client. -/
def ClientEvent.toServer (big : Bool) (ev : ClientEvent) : ClientEvent :=
  { ev with byteorder := netOrder big ev.byteorder }

/-- The Java server can take the event: it has a byte order mark, and data that are sent fit in
the server's array. -/
def ClientEvent.Puttable (ev : ClientEvent) (big : Bool) (size : ArraySize) : Prop :=
  IsMark (netOrder big ev.byteorder) ∧ (ev.modify = etModify → ev.length.toNat ≤ size.1)

instance (ev : ClientEvent) (big : Bool) (size : ArraySize) : Decidable (ev.Puttable big size) :=
  inferInstanceAs (Decidable (_ ∧ (_ → _)))

/-- The event with other control words. -/
def ClientEvent.setControl (ev : ClientEvent) (control : SelectWords) : ClientEvent :=
  { ev with control := control }

theorem javaLength_of_lt {len : BitVec 64} (h : len.toNat < 2 ^ 31) : javaLength len = some len := by
  have hint : len.toInt = len.toNat := BitVec.toInt_eq_toNat_of_lt (by omega)
  have hmod : (len.truncate 32).toNat = len.toNat := by
    rw [BitVec.truncate_eq_setWidth, BitVec.toNat_setWidth]
    omega
  have hshort : (len.truncate 32).toInt = len.toNat := by
    rw [BitVec.toInt_eq_toNat_of_lt (by omega), hmod]
  rw [javaLength, hint, hshort, if_neg (by omega), if_neg (by omega)]
  congr 1
  apply BitVec.eq_of_toNat_eq
  rw [BitVec.zeroExtend_eq_setWidth, BitVec.toNat_setWidth, hmod]
  omega

section

variable {size : ArraySize} {big grow : Bool} {m : Memory τ} {ev : ClientEvent}

/-- Storing an event changes no size of memory. -/
theorem Memory.JavaSized.store (h : m.JavaSized) (ev : ClientEvent) : (m.store ev).JavaSized := by
  intro place
  by_cases hplace : place = ev.place
  · subst hplace
    rw [Memory.store, Memory.update_event]
    exact h ev.place
  · rw [Memory.store, m.update_event_of_ne _ hplace]
    exact h place

@[simp] theorem MemEvent.javaStore_modify (e : MemEvent) (length : BitVec 64)
    (priAndStat byteorder : Word) (control : SelectWords) :
    (e.javaStore length priAndStat byteorder control).modify = e.modify := rfl

@[simp] theorem MemEvent.javaStore_length (e : MemEvent) (length : BitVec 64)
    (priAndStat byteorder : Word) (control : SelectWords) :
    (e.javaStore length priAndStat byteorder control).length = length := rfl

/-- **An event that is put is stored as it was sent**, or the server cannot take it. -/
theorem run_javaReadPut (h : Obtained m ev) (hsize : m.JavaSized) (hfit : ev.length ≤ ev.memsize)
    (control : SelectWords) (rest : List Byte) :
    (javaReadPut size grow m ev.place ev.length (packStatus ev.priority ev.datastatus)
        (netOrder big ev.byteorder) control).run (ev.sentData ++ rest) =
      if ev.Puttable big size then
        some (some (m.store ((ev.toServer big).setControl control)), rest)
      else some (none, ev.sentData ++ rest) := by
  have hmem := hsize ev.place
  rw [h.memsize] at hmem
  have hlt : ev.length.toNat < 2 ^ 31 := lt_of_le_of_lt (BitVec.le_def.mp hfit) hmem
  have hgrow : ¬ (m.event ev.place).memsize < ev.length := by
    rw [h.memsize]
    exact BitVec.not_lt.mpr hfit
  unfold javaReadPut
  rw [javaLength_of_lt hlt]
  dsimp only
  by_cases hmark : IsMark (netOrder big ev.byteorder)
  swap
  · rw [if_pos hmark, if_neg fun h : ev.Puttable big size => hmark h.1]
    rfl
  rw [if_neg (not_not.mpr hmark)]
  -- the memory is enough, so it does not grow
  have hstore : (fun e : MemEvent =>
      let e := e.javaStore ev.length (packStatus ev.priority ev.datastatus)
        (netOrder big ev.byteorder) control
      if grow ∧ e.modify = etModify then e.javaGrow else e) (m.event ev.place) =
      (m.event ev.place).javaStore ev.length (packStatus ev.priority ev.datastatus)
        (netOrder big ev.byteorder) control := by
    dsimp only
    split
    · exact if_neg hgrow
    · rfl
  have hupdate : m.update ev.place (fun e : MemEvent =>
      let e := e.javaStore ev.length (packStatus ev.priority ev.datastatus)
        (netOrder big ev.byteorder) control
      if grow ∧ e.modify = etModify then e.javaGrow else e) =
      m.update ev.place fun e => e.javaStore ev.length (packStatus ev.priority ev.datastatus)
        (netOrder big ev.byteorder) control := by
    unfold Memory.update
    rw [hstore]
  rw [hupdate]
  unfold javaReadData
  rw [Memory.update_event]
  have hserver := (m.event ev.place).javaStore_modify ev.length
    (packStatus ev.priority ev.datastatus) (netOrder big ev.byteorder) control
  have hlength := (m.event ev.place).javaStore_length ev.length
    (packStatus ev.priority ev.datastatus) (netOrder big ev.byteorder) control
  generalize (m.event ev.place).javaStore ev.length _ _ control = e at hserver hlength
  dsimp only
  by_cases hmodify : ev.modify = etModify
  · rw [if_pos (hserver.trans (h.modify.mpr hmodify)), hlength]
    by_cases harray : ev.length.toNat ≤ size.1
    · have hsent : ev.sentData.length = ev.length.toNat := by
        rw [ClientEvent.sentData, if_pos hmodify, Buffer.length_read]
      have hput : ev.Puttable big size := ⟨hmark, fun _ => harray⟩
      rw [if_neg (not_lt.mpr harray), if_pos hput]
      refine run_bind_of (run_readBytes hsent rest) ?_
      rw [Memory.update_update]
      simp [Memory.store, MemEvent.store, MemEvent.javaStore, ClientEvent.setControl,
        ClientEvent.toServer, ClientEvent.sentData, hmodify, Memory.update]
    · rw [if_pos (not_le.mp harray), if_neg fun h : ev.Puttable big size => harray (h.2 hmodify)]
      rfl
  · have hput : ev.Puttable big size := ⟨hmark, fun h => absurd h hmodify⟩
    rw [if_neg fun hs => hmodify (h.modify.mp (hserver.symm.trans hs)), if_pos hput]
    have hsent : ev.sentData = [] := if_neg hmodify
    rw [hsent, List.nil_append]
    simp [Memory.store, MemEvent.store, MemEvent.javaStore, ClientEvent.setControl,
      ClientEvent.toServer, hmodify, Memory.update]

/-- **Several events** are stored as they were sent, or the server cannot take one of them. -/
theorem run_javaReadPuts (evs : List ClientEvent) (h : ∀ ev ∈ evs, Obtained m ev)
    (hsize : m.JavaSized) (hfit : ∀ ev ∈ evs, ev.length ≤ ev.memsize) (rest : List Byte) :
    ((∀ ev ∈ evs, ev.Puttable big size) ∧
      (javaReadPuts size evs.length m).run (evs.flatMap (·.putBytes big) ++ rest) =
        some ((some (m.storeAll (evs.map (·.toServer big))), evs.map (·.place)), rest)) ∨
    ((∃ ev ∈ evs, ¬ ev.Puttable big size) ∧ ∃ ids left,
      (javaReadPuts size evs.length m).run (evs.flatMap (·.putBytes big) ++ rest) =
        some ((none, ids), left)) := by
  induction evs generalizing m with
  | nil => exact Or.inl ⟨nofun, rfl⟩
  | cons ev evs ih =>
      have hread := @run_javaReadPut _ size big true _ _
        (h ev List.mem_cons_self) hsize (hfit ev List.mem_cons_self) ev.control
        (evs.flatMap (·.putBytes big) ++ rest)
      have hlength : uint64 ((putHeader big ev).getD 2 0) ((putHeader big ev).getD 3 0) =
          ev.length := uint64_highInt_lowInt _
      have hcontrol : SelectWords.ofList (putHeader big ev) 7 = ev.control := rfl
      rw [List.flatMap_cons, ClientEvent.putBytes, List.append_assoc, List.append_assoc,
        List.length_cons, javaReadPuts]
      by_cases hput : ev.Puttable big size
      · rw [if_pos hput] at hread
        have hstore : (ev.toServer big).setControl ev.control = ev.toServer big := rfl
        rw [hstore] at hread
        have hrest := ih (m := m.store (ev.toServer big))
          (fun e he => (h e (List.mem_cons_of_mem _ he)).store _) (hsize.store _)
          fun e he => hfit e (List.mem_cons_of_mem _ he)
        rcases hrest with ⟨hall, hrun⟩ | ⟨⟨e, he, hbad⟩, ids, left, hrun⟩
        · refine Or.inl ⟨List.forall_mem_cons.mpr ⟨hput, hall⟩, ?_⟩
          refine run_bind_of (run_readWords (by rfl) _) ?_
          dsimp only
          rw [hlength, hcontrol]
          refine run_bind_of hread ?_
          exact run_bind_of hrun rfl
        · refine Or.inr ⟨⟨e, List.mem_cons_of_mem _ he, hbad⟩, ev.place :: ids, left, ?_⟩
          refine run_bind_of (run_readWords (by rfl) _) ?_
          dsimp only
          rw [hlength, hcontrol]
          refine run_bind_of hread ?_
          exact run_bind_of hrun rfl
      · rw [if_neg hput] at hread
        refine Or.inr ⟨⟨ev, List.mem_cons_self, hput⟩, [],
          ev.sentData ++ (evs.flatMap (·.putBytes big) ++ rest), ?_⟩
        refine run_bind_of (run_readWords (by rfl) _) ?_
        dsimp only
        rw [hlength, hcontrol]
        exact run_bind_of hread rfl

end

/-! ## One event -/

/-- The control words as the Java server reads them from a single event: one place too early. -/
def SelectWords.shift (s : SelectWords) : SelectWords := .ofList (0 :: s.toList) 0

theorem SelectWords.shift_eq_iff (s : SelectWords) : s.shift = s ↔ s = ⟨0, 0, 0, 0, 0, 0⟩ := by
  obtain ⟨a, b, c, d, e, f⟩ := s
  simp only [shift, ofList, toList, SelectWords.mk.injEq, List.getD_cons_zero,
    List.getD_cons_succ, Nat.zero_add]
  constructor
  · rintro ⟨rfl, rfl, rfl, rfl, rfl, rfl⟩
    exact ⟨rfl, rfl, rfl, rfl, rfl, rfl⟩
  · rintro ⟨rfl, rfl, rfl, rfl, rfl, rfl⟩
    exact ⟨rfl, rfl, rfl, rfl, rfl, rfl⟩

namespace Local

variable (L : Local τ) (size : ArraySize) (big : Bool) (att : Word) (m : Memory τ)

/-- **What the server does with one event that is put.** -/
theorem run_javaEventPut {ev : ClientEvent} (h : Obtained m ev) (hsize : m.JavaSized)
    (hfit : ev.length ≤ ev.memsize) :
    L.javaLoop size (some m) (eventPutRequest big att ev) =
      if ev.Puttable big size then
        some ((some (L.eventPut att ev.place
          (m.store ((ev.toServer big).setControl ev.control.shift))).1, putWords [etOk]), [])
      else some ((none, []), ev.sentData) := by
  have hrequest : eventPutRequest big att ev =
      htonl Command.evPut.code ++ (putWords (att :: putHeader big ev) ++ ev.sentData) := by
    rw [eventPutRequest, ClientEvent.putBytes, putWords_cons, putWords_cons, putWords_nil,
      List.append_nil, putWords_cons]
    simp only [List.append_assoc]
    rfl
  have hlength : uint64 ((att :: putHeader big ev).getD 3 0) ((att :: putHeader big ev).getD 4 0) =
      ev.length := uint64_highInt_lowInt _
  have hcontrol : SelectWords.ofList (att :: putHeader big ev) 7 = ev.control.shift := rfl
  have hread := @run_javaReadPut _ size big false _ _ h hsize hfit
    ev.control.shift []
  rw [List.append_nil] at hread
  rw [hrequest]
  refine run_bind_of (run_readWord _ _) ?_
  rw [Command.ofCode_code]
  refine run_bind_of (run_readWords (by rfl) _) ?_
  dsimp only
  rw [hlength, hcontrol]
  split
  case isTrue hput =>
    rw [if_pos hput] at hread
    exact run_bind_of hread rfl
  case isFalse hput =>
    rw [if_neg hput] at hread
    exact run_bind_of hread rfl

/-- **An event is put with exactly the client's values**, whatever the client is told. -/
def JavaPutsEvent (ev : ClientEvent) : Prop :=
  ∃ code, converse (L.javaLoop size) (etrEventPut big att ev) (.quiet (some m)) =
    some (code, .quiet (some (L.putEvent att m (ev.toServer big)).1))

theorem javaPutsEvent_iff (hL : L.LikeJava) {ev : ClientEvent} (hobt : Obtained m ev)
    (hsize : m.JavaSized) :
    L.JavaPutsEvent size big att m ev ↔
      (ev.length ≤ ev.memsize → ev.modified → ¬ ev.lacksData →
        ev.Puttable big size ∧ ev.control = ⟨0, 0, 0, 0, 0, 0⟩) := by
  have hexpected : L.putEvent att m (ev.toServer big) =
      if ev.memsize < ev.length then (m, etError)
      else if ¬ ev.modified then (m, etOk)
      else if ev.lacksData then (m, etErrorRemote)
      else L.eventPut att ev.place (m.store (ev.toServer big)) := rfl
  unfold JavaPutsEvent etrEventPut
  rw [hexpected]
  by_cases hfit : ev.memsize < ev.length
  · simp [hfit, converse, BitVec.not_le.mpr hfit]
  have hle : ev.length ≤ ev.memsize := BitVec.not_lt.mp hfit
  by_cases hmod : ev.modified
  swap
  · simp [hfit, hmod, converse]
  by_cases hlacks : ev.lacksData
  · simp [hfit, hmod, hlacks, converse]
  rw [if_neg hfit, if_neg (not_not.mpr hmod), if_neg hlacks, if_neg hfit,
    if_neg (not_not.mpr hmod), if_neg hlacks]
  have hrun := L.run_javaEventPut size big att m hobt hsize hle
  by_cases hput : ev.Puttable big size
  swap
  · rw [if_neg hput] at hrun
    refine iff_of_false ?_ fun h => hput (h hle hmod hlacks).1
    rintro ⟨code, h⟩
    cases converse_exchangev_ended hrun (by decide) h
  rw [if_pos hput] at hrun
  have hshort : ev.Short := fun _ => by
    have hmem := hsize ev.place
    rw [hobt.memsize] at hmem
    exact lt_of_le_of_lt (BitVec.le_def.mp hle) hmem
  rw [converse_exchangev hrun (by rw [length_putWords]; rfl),
    writevFails_eventPutRequest big att hshort, if_neg (by decide)]
  simp only [converse, Option.some.injEq, Prod.mk.injEq, exists_eq_left', Conn.quiet,
    Conn.mk.injEq, and_true]
  constructor
  · intro heq _ _ _
    refine ⟨hput, (SelectWords.shift_eq_iff _).mp ?_⟩
    have hevent := congrArg (fun m => (m.event ev.place).control) heq
    rw [hL.eventPut, hL.eventPut] at hevent
    have hleft : ((m.store ((ev.toServer big).setControl ev.control.shift)).event ev.place).control =
        ev.control.shift := congrArg MemEvent.control (m.update_event ..)
    have hright : ((m.store (ev.toServer big)).event ev.place).control = ev.control :=
      congrArg MemEvent.control (m.update_event ..)
    rw [hleft, hright] at hevent
    exact hevent
  · intro h
    have hcontrol := (SelectWords.shift_eq_iff _).mpr (h hle hmod hlacks).2
    rw [hcontrol]
    rfl

end Local

/-! ## Several events -/

/-- What the Java system has of the events of a client. -/
def EventArray.toServer (big : Bool) (evs : EventArray) : EventArray :=
  ⟨evs.1.map (·.toServer big), by rw [List.length_map]; exact evs.2⟩

theorem EventArray.sent_toServer (big : Bool) (evs : EventArray) :
    (evs.toServer big).sent = evs.sent.map (·.toServer big) := by
  rw [sent, toServer, List.filter_map]
  rfl

/-- An `EventArray.sent` event comes from the array. -/
theorem EventArray.mem_of_mem_sent {evs : EventArray} {ev : ClientEvent} (h : ev ∈ evs.sent) :
    ev ∈ evs.1 := List.mem_of_mem_filter h

namespace Local

variable (L : Local τ) (size : ArraySize) (big : Bool) (att : Word) (m : Memory τ)

/-- **What the server does with events that are put**; the total that is announced does not
matter. -/
theorem run_javaEventsPut {evs : List ClientEvent} (hcount : evs.length < 2 ^ 31)
    (h : ∀ ev ∈ evs, Obtained m ev) (hsize : m.JavaSized)
    (hfit : ∀ ev ∈ evs, ev.length ≤ ev.memsize) {request : List Byte} {hi lo : Word}
    (hrequest : request = putWords [Command.evsPut.code, att, BitVec.ofNat 32 evs.length, hi, lo] ++
      evs.flatMap (·.putBytes big)) :
    ((∀ ev ∈ evs, ev.Puttable big size) ∧
      L.javaLoop size (some m) request =
        some ((some (L.eventsPut att (evs.map (·.place))
          (m.storeAll (evs.map (·.toServer big)))).1, putWords [etOk]), [])) ∨
    ((∃ ev ∈ evs, ¬ ev.Puttable big size) ∧ ∃ left,
      L.javaLoop size (some m) request = some ((none, []), left)) := by
  have htoNat : (BitVec.ofNat 32 evs.length).toNat = evs.length := by
    rw [BitVec.toNat_ofNat]
    omega
  have hputs := @run_javaReadPuts _ size big _ evs h hsize hfit []
  rw [List.append_nil] at hputs
  rw [hrequest, putWords_cons, List.append_assoc]
  rcases hputs with ⟨hall, hrun⟩ | ⟨hbad, ids, left, hrun⟩
  · refine Or.inl ⟨hall, ?_⟩
    refine run_bind_of (run_readWord _ _) ?_
    rw [Command.ofCode_code]
    refine run_bind_of (run_readWords (by rfl) _) ?_
    simp only [List.getD_cons_zero, List.getD_cons_succ, htoNat]
    exact run_bind_of hrun rfl
  · refine Or.inr ⟨hbad, left, ?_⟩
    refine run_bind_of (run_readWord _ _) ?_
    rw [Command.ofCode_code]
    refine run_bind_of (run_readWords (by rfl) _) ?_
    simp only [List.getD_cons_zero, List.getD_cons_succ, htoNat]
    exact run_bind_of hrun rfl

/-- **Events are put with exactly the client's values**, whatever the client is told. -/
def JavaPutsEvents (evs : EventArray) : Prop :=
  ∃ code, converse (L.javaLoop size) (etrEventsPut big att evs) (.quiet (some m)) =
    some (code, .quiet (some (L.putEvents att m (evs.toServer big)).1))

/-- **The Java client puts events with exactly its values.** -/
def JavaClientPuts (evs : EventArray) : Prop :=
  converse (L.javaLoop size) (javaPutEvents att evs) (.quiet (some m)) =
    some ((), .quiet (some (L.putEvents att m evs).1))

/-- What putting events should do, in terms of the client's events. -/
theorem putEvents_toServer (evs : EventArray) :
    L.putEvents att m (evs.toServer big) =
      if ∃ ev ∈ evs.1, ev.memsize < ev.length then (m, etError)
      else if evs.sent = [] then (m, etOk)
      else if ∃ ev ∈ evs.sent, ev.lacksData then (m, etErrorRemote)
      else L.eventsPut att (evs.sent.map (·.place)) (m.storeAll (evs.sent.map (·.toServer big))) := by
  have hfit : (∃ ev ∈ (evs.toServer big).1, ev.memsize < ev.length) ↔
      ∃ ev ∈ evs.1, ev.memsize < ev.length := by
    simp only [EventArray.toServer, List.mem_map, exists_exists_and_eq_and]
    rfl
  have hlacks : (∃ ev ∈ evs.sent.map (·.toServer big), ev.lacksData) ↔
      ∃ ev ∈ evs.sent, ev.lacksData := by
    simp only [List.mem_map, exists_exists_and_eq_and]
    rfl
  rw [putEvents, EventArray.sent_toServer, List.map_map]
  simp only [hfit, hlacks, List.map_eq_nil_iff]
  rfl

theorem javaPutsEvents_iff {evs : EventArray} (hobt : ∀ ev ∈ evs.sent, Obtained m ev)
    (hsize : m.JavaSized) :
    L.JavaPutsEvents size big att m evs ↔
      ((∀ ev ∈ evs.1, ev.length ≤ ev.memsize) → evs.sent ≠ [] →
        (∀ ev ∈ evs.sent, ¬ ev.lacksData) →
        (∀ ev ∈ evs.sent, ev.Puttable big size) ∧
          writevFails (eventsPutRequest big att evs.sent).length = false) := by
  unfold JavaPutsEvents etrEventsPut
  rw [putEvents_toServer]
  by_cases hfit : ∃ ev ∈ evs.1, ev.memsize < ev.length
  · have hnot : ¬ ∀ ev ∈ evs.1, ev.length ≤ ev.memsize := by
      obtain ⟨ev, hev, hlt⟩ := hfit
      exact fun h => absurd (h ev hev) (BitVec.not_le.mpr hlt)
    rw [if_pos hfit, if_pos hfit]
    simp [converse, hnot]
  have hle : ∀ ev ∈ evs.1, ev.length ≤ ev.memsize := by
    intro ev hev
    by_contra hlt
    exact hfit ⟨ev, hev, BitVec.not_le.mp hlt⟩
  have hcount : evs.sent.length < 2 ^ 31 := (List.length_filter_le _ _).trans_lt evs.2
  rw [if_neg hfit, if_neg hfit]
  dsimp only
  by_cases hnil : evs.sent = []
  · simp [hnil, converse]
  rw [if_neg hnil, if_neg hnil, converse_choose, if_neg (by decide)]
  by_cases hlacks : ∃ ev ∈ evs.sent, ev.lacksData
  · have hnot : ¬ ∀ ev ∈ evs.sent, ¬ ev.lacksData := by
      obtain ⟨ev, hev, hl⟩ := hlacks
      exact fun h => h ev hev hl
    rw [if_pos hlacks, if_pos hlacks]
    refine iff_of_true ⟨_, rfl⟩ fun _ _ h => absurd h hnot
  rw [if_neg hlacks, if_neg hlacks]
  have hrun := L.run_javaEventsPut size big att m hcount hobt hsize
    (fun ev hev => hle ev (EventArray.mem_of_mem_sent hev))
    (show eventsPutRequest big att evs.sent = _ from rfl)
  rcases hrun with ⟨hall, hrun⟩ | ⟨⟨ev, hev, hbad⟩, left, hrun⟩
  · rw [converse_exchangev hrun (by rw [length_putWords]; rfl)]
    cases hfails : writevFails (eventsPutRequest big att evs.sent).length with
    | false =>
        rw [if_neg (by decide)]
        simp only [converse]
        exact iff_of_true ⟨_, rfl⟩ fun _ _ _ => ⟨hall, trivial⟩
    | true =>
        -- the reply is left on the connection
        rw [if_pos rfl]
        refine iff_of_false ?_ fun h =>
          Bool.false_ne_true.symm (h hle hnil fun ev hev hl => hlacks ⟨ev, hev, hl⟩).2
        rintro ⟨code, h⟩
        have hdown := congrArg (fun r => r.map fun p => p.2.down) h
        simp [Conn.quiet, htonl] at hdown
  · refine iff_of_false ?_ fun h =>
      hbad ((h hle hnil fun ev hev hl => hlacks ⟨ev, hev, hl⟩).1 ev hev)
    rintro ⟨code, h⟩
    cases converse_exchangev_ended hrun (by decide) h

theorem javaClientPuts_iff {evs : EventArray} (hobt : ∀ ev ∈ evs.sent, Obtained m ev)
    (hsize : m.JavaSized) (hfit : ∀ ev ∈ evs.1, ev.length ≤ ev.memsize)
    (hdata : ∀ ev ∈ evs.sent, ¬ ev.lacksData) :
    L.JavaClientPuts size att m evs ↔ ∀ ev ∈ evs.sent, ev.Puttable true size := by
  have hnofit : ¬ ∃ ev ∈ evs.1, ev.memsize < ev.length := by
    rintro ⟨ev, hev, hlt⟩
    exact absurd (hfit ev hev) (BitVec.not_le.mpr hlt)
  have hnolack : ¬ ∃ ev ∈ evs.sent, ev.lacksData := by
    rintro ⟨ev, hev, hl⟩
    exact hdata ev hev hl
  have hcount : evs.sent.length < 2 ^ 31 := (List.length_filter_le _ _).trans_lt evs.2
  have hserver : evs.sent.map (·.toServer true) = evs.sent := List.map_id _
  unfold JavaClientPuts javaPutEvents putEvents
  rw [if_neg hnofit, if_neg hnolack]
  by_cases hnil : evs.sent = []
  · simp [hnil, converse]
  rw [if_neg hnil, if_neg hnil]
  have hrun := L.run_javaEventsPut size true att m hcount hobt hsize
    (fun ev hev => hfit ev (EventArray.mem_of_mem_sent hev))
    (show javaEventsPutRequest att evs.sent = _ from rfl)
  rw [hserver] at hrun
  rcases hrun with ⟨hall, hrun⟩ | ⟨⟨ev, hev, hbad⟩, left, hrun⟩
  · refine iff_of_true ?_ hall
    rw [converse_exchange_of_length hrun (by rw [length_putWords]; rfl)]
    rfl
  · refine iff_of_false (fun h => ?_) fun h => hbad (h ev hev)
    cases converse_exchange_stuck hrun (L.javaLoop_none size) h

end Local

/-! ## Both directions -/

/-- **Exactly when events survive the Java server.**

Getting: the client has not set the dump flag, which this server takes for no modification it
knows; the arrays for the reply can be made, no status is the one that stands for none, and the
data are in the array they are read from.  A batch in addition needs room for every header in
the buffer.  The Java client also refuses events that are longer than their memory and byte
orders that are no marks.

Putting what was got or made: the byte order is a mark, and data that are sent fit in the
array.  A single event in addition has no control words. -/
theorem javaEvents_survive_iff (L : Local τ) (hL : L.LikeJava) (size : ArraySize) (att : Word)
    (m : Memory τ) (hsize : m.JavaSized) :
    (∀ big fuel mode deltatime, L.JavaGetsEvent size big fuel att mode deltatime m ↔
      ∀ m' place, L.gotEvent fuel att mode deltatime m = some (m', .ok place) →
        mode &&& etDump = 0 ∧ (m'.event place).Gettable size) ∧
    (∀ big fuel mode num deltatime, L.JavaGetsEvents size big fuel att mode num deltatime m ↔
      ∀ m' places, L.gotEvents fuel att mode num deltatime m = some (m', .ok places) →
        (mode &&& etDump = 0 ∨ places.1 = []) ∧ m'.Sendable places.1 size) ∧
    (∀ fuel mode modify microSec count,
      L.JavaClientGets size fuel att mode modify microSec count m ↔
        ∀ m' places, L.javaGot fuel att mode modify microSec count m = some (m', .ok places) →
          m'.Sendable places.1 size ∧ ∀ place ∈ places.1, (m'.event place).Takeable) ∧
    (∀ big ev, Obtained m ev → (L.JavaPutsEvent size big att m ev ↔
      (ev.length ≤ ev.memsize → ev.modified → ¬ ev.lacksData →
        ev.Puttable big size ∧ ev.control = ⟨0, 0, 0, 0, 0, 0⟩))) ∧
    (∀ big (evs : EventArray), (∀ ev ∈ evs.sent, Obtained m ev) →
      (L.JavaPutsEvents size big att m evs ↔
        ((∀ ev ∈ evs.1, ev.length ≤ ev.memsize) → evs.sent ≠ [] →
          (∀ ev ∈ evs.sent, ¬ ev.lacksData) →
          (∀ ev ∈ evs.sent, ev.Puttable big size) ∧
            writevFails (eventsPutRequest big att evs.sent).length = false))) ∧
    ∀ evs : EventArray, (∀ ev ∈ evs.sent, Obtained m ev) →
      (∀ ev ∈ evs.1, ev.length ≤ ev.memsize) → (∀ ev ∈ evs.sent, ¬ ev.lacksData) →
      (L.JavaClientPuts size att m evs ↔ ∀ ev ∈ evs.sent, ev.Puttable true size) :=
  ⟨fun big fuel mode deltatime => L.javaGetsEvent_iff size big fuel att mode deltatime m hL,
    fun big fuel mode num deltatime =>
      L.javaGetsEvents_iff size big fuel att mode num deltatime m hL,
    fun fuel mode modify microSec count =>
      L.javaClientGets_iff size fuel att mode modify microSec count m hL,
    fun big _ hobt => L.javaPutsEvent_iff size big att m hL hobt hsize,
    fun big _ hobt => L.javaPutsEvents_iff size big att m hobt hsize,
    fun _ hobt hfit hdata => L.javaClientPuts_iff size att m hobt hsize hfit hdata⟩

theorem Local.noting_likeJava : Local.noting.LikeJava where
  sized _ _ _ _ _ _ h := nomatch (Prod.mk.inj h).2
  error _ _ _ _ _ _ h := by
    obtain ⟨-, herr⟩ := Prod.mk.inj h
    cases herr
    decide
  eventPut _ _ _ := rfl
  eventsPut _ _ _ := rfl
  eventDump _ _ _ := rfl
  eventsDump _ _ _ := rfl
  dumpNone _ _ := rfl

theorem madeNew_javaSized : Memory.madeNew.JavaSized := fun _ =>
  show (8 : BitVec 64).toNat < 2 ^ 31 by decide

/-- The new event of 3 bytes is put, into an array of 8. -/
theorem javaEvents_survive_example :
    Local.noting.JavaPutsEvent ⟨8, by decide⟩ false 5 .madeNew newEvent :=
  ((javaEvents_survive_iff Local.noting Local.noting_likeJava ⟨8, by decide⟩ 5 Memory.madeNew
    madeNew_javaSized).2.2.2.1 false newEvent ⟨by decide, by decide⟩).mpr
    fun _ _ _ => ⟨by decide, by decide⟩

/-- The event with a 7 in its first control word is put with the 7 in the second. -/
theorem control_words_not_put :
    ¬ Local.noting.JavaPutsEvent ⟨8, by decide⟩ false 5 .madeNew
      (newEvent.setControl ⟨7, 0, 0, 0, 0, 0⟩) := by
  rw [Local.javaPutsEvent_iff _ _ _ _ _ Local.noting_likeJava ⟨by decide, by decide⟩
    madeNew_javaSized]
  intro h
  exact absurd (h (by decide) (by decide) (by decide)).2 (by decide)

end EventTransfer
