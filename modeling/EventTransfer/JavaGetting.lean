import EventTransfer.JavaClient

/-!
# Getting events from the Java server

The routines of `et_remote.c` and of `EtSystem.java` that get events, run against the command
loop of the Java server.

* `MemEvent.toClient` — the byte order mark is an integer to the server and four bytes to the
  client.
* `Local.LikeJava` — what is used of the Java system: sizes are `int`s, its calls fail with five
  codes, and putting and dumping leave alone what is in the events.
* `Local.javaGetsEvent_iff`, `Local.javaGetsEvents_iff`, `Local.javaClientGets_iff` — exactly
  when events are got as the server holds them, and are then where the C server would leave
  them.
-/

namespace EventTransfer

open Wire Exchange

variable {τ : Type}

/-! ## What is expected -/

/-- What a client has of an event of the Java system. -/
def MemEvent.toClient (big : Bool) (e : MemEvent) : MemEvent :=
  { e with byteorder := netOrder big e.byteorder }

/-- The two servers send the same bytes. -/
theorem MemEvent.javaBytes_eq (big : Bool) (id : Word) (e : MemEvent) :
    e.javaBytes id = (e.toClient big).getBytes big id := by
  rw [javaBytes, getBytes, javaGetHeader, getHeader]
  simp only [toClient, netOrder_netOrder]
  rfl

/-- All sizes of memory are `int`s. -/
def Memory.JavaSized (m : Memory τ) : Prop := ∀ place, (m.event place).memsize.toNat < 2 ^ 31

/-- **What is used of the Java system.** -/
structure Local.LikeJava (L : Local τ) : Prop where
  sized : ∀ att t num m m' places, L.eventsGet att t num m = (m', .ok places) → m'.JavaSized
  error : ∀ att t num m m' err, L.eventsGet att t num m = (m', .error err) → err.1 ∈ javaErrors
  eventPut : ∀ att place m, (L.eventPut att place m).1.event = m.event
  eventsPut : ∀ att places m, (L.eventsPut att places m).1.event = m.event
  eventDump : ∀ att place m, (L.eventDump att place m).1.event = m.event
  eventsDump : ∀ att places m, (L.eventsDump att places m).1.event = m.event
  dumpNone : ∀ att m, (L.eventsDump att [] m).1 = m

/-- What is asked for, as the Java server understands it: it does not know the dump flag. -/
theorem javaModify_netModify (mode : Word) :
    javaModify (netModify mode) = if mode &&& etDump = 0 then getModify mode else -1 := by
  unfold netModify
  rcases getModify_cases mode with h | h | h <;> rcases and_etDump mode with h' | h' <;>
    rw [h, h'] <;> decide

/-- It puts the events back that are not modified, unless the flag is set. -/
theorem netModify_eq_zero (mode : Word) :
    netModify mode = 0 ↔ getModify mode = 0 ∧ mode &&& etDump = 0 := by
  unfold netModify
  rcases getModify_cases mode with h | h | h <;> rcases and_etDump mode with h' | h' <;>
    rw [h, h'] <;> decide

theorem netModify_and_etDump (mode : Word) : netModify mode &&& etDump = mode &&& etDump := by
  unfold netModify
  rcases getModify_cases mode with h | h | h <;> rcases and_etDump mode with h' | h' <;>
    rw [h, h'] <;> decide

theorem getModify_ne (mode : Word) : getModify mode ≠ -1 := by
  rcases getModify_cases mode with h | h | h <;> rw [h] <;> decide

/-- A server that has ended takes nothing more. -/
theorem Local.javaLoop_none (L : Local τ) (size : ArraySize) (bytes : List Byte) :
    L.javaLoop size none bytes = none := rfl

namespace Memory

variable (m : Memory τ) (modify : Word)

theorem setModify_event (place : Word) :
    (m.setModify modify place).event place = { m.event place with modify := modify } :=
  m.update_event _ _

/-- The notes of several events are theirs. -/
theorem setModifyAll_modify {places : List Word} {place : Word} (h : place ∈ places) :
    ((m.setModifyAll modify places).event place).modify = modify := by
  induction places using List.reverseRecOn with
  | nil => exact nomatch h
  | append_singleton places p ih =>
      rw [setModifyAll, List.foldl_append, List.foldl_cons, List.foldl_nil]
      by_cases hp : place = p
      · rw [hp, setModify_event]
      · have hmem : place ∈ places := by simpa [hp] using h
        rw [setModify, update_event_of_ne _ _ hp]
        exact ih hmem

/-- Nothing else of the events changes. -/
theorem setModifyAll_event (places : List Word) (place : Word) :
    ∃ w, (m.setModifyAll modify places).event place = { m.event place with modify := w } := by
  induction places using List.reverseRecOn with
  | nil => exact ⟨(m.event place).modify, rfl⟩
  | append_singleton places p ih =>
      obtain ⟨w, hw⟩ := ih
      rw [setModifyAll, List.foldl_append, List.foldl_cons, List.foldl_nil]
      by_cases hp : place = p
      · subst hp
        refine ⟨modify, ?_⟩
        rw [setModify_event]
        change { (m.setModifyAll modify places).event place with modify := modify } = _
        rw [hw]
      · refine ⟨w, ?_⟩
        rw [setModify, update_event_of_ne _ _ hp]
        exact hw

end Memory

/-! ## Getting one event -/

/-- The server's array for the reply exists, and it can read all of the event. -/
def MemEvent.Gettable (e : MemEvent) (size : ArraySize) : Prop :=
  64 + e.length.toNat < 2 ^ 31 ∧ e.Readable size

theorem javaEventReply_iff (size : ArraySize) (id : Word) (e : MemEvent) :
    (javaEventReply size id e).isSome ↔ e.Gettable size := by
  unfold javaEventReply MemEvent.Gettable MemEvent.Readable
  split
  case isTrue h =>
    simp only [Option.isSome_none, Bool.false_eq_true, false_iff]
    rcases h with h | h | h
    · exact fun hall => absurd hall.1 (not_lt.mpr h)
    · exact fun hall => hall.2.1 h
    · exact fun hall => absurd hall.2.2 (not_le.mpr h)
  case isFalse h =>
    rw [not_or, not_or, not_le, not_lt] at h
    simp only [Option.isSome_some, true_iff]
    exact h

theorem javaEventReply_eq {size : ArraySize} {e : MemEvent} (h : e.Gettable size) (big : Bool)
    (id : Word) :
    javaEventReply size id e = some (putWords [etOk] ++ (e.toClient big).getBytes big id) := by
  obtain ⟨reply, hreply⟩ := Option.isSome_iff_exists.mp ((javaEventReply_iff size id e).mpr h)
  rw [hreply]
  unfold javaEventReply at hreply
  split at hreply
  · exact nomatch hreply
  · rw [← e.javaBytes_eq big id, MemEvent.javaBytes, ← List.append_assoc, ← putWords_append]
    exact hreply.symm

namespace Local

variable (L : Local τ) (size : ArraySize) (big : Bool)

/-- Where the Java server leaves an event that was got. -/
def javaAfterGet (att mode : Word) (m : Memory τ) (place : Word) : Memory τ :=
  let m := m.setModify (javaModify (netModify mode)) place
  if netModify mode = 0 then (L.eventPut att place m).1 else m

theorem run_javaEventGet (att mode : Word) (t : Timing) (m : Memory τ) (rest : List Byte) :
    L.javaLoop size (some m) (eventGetRequest att mode t ++ rest) =
      match L.eventGet att t m with
      | (m', .error err) => some ((some m', putWords [err.1]), rest)
      | (m', .ok place) =>
          match javaEventReply size place (m'.event place) with
          | none => some ((none, []), rest)
          | some reply => some ((some (L.javaAfterGet att mode m' place), reply), rest) := by
  rw [eventGetRequest, putWords_cons, List.append_assoc]
  refine run_bind_of (run_readWord _ _) ?_
  rw [Command.ofCode_code]
  refine run_bind_of (run_readWords (by rfl) _) ?_
  simp only [List.getD_cons_zero, List.getD_cons_succ]
  rcases L.eventGet att ⟨t.wait, t.sec, t.nsec⟩ m with ⟨m', err | place⟩
  · rfl
  · dsimp only
    rcases javaEventReply size place (m'.event place) with _ | reply
    · rfl
    · rfl

/-- Exactly without the flag the event is where the C server leaves it. -/
theorem javaAfterGet_eq_iff (hL : L.LikeJava) (att mode : Word) (m : Memory τ) (place : Word) :
    L.javaAfterGet att mode m place =
      L.afterGet att mode (m.setModify (getModify mode) place) place ↔ mode &&& etDump = 0 := by
  unfold javaAfterGet afterGet giveBack
  rw [netModify_mask, netModify_and_etDump, javaModify_netModify]
  simp only [netModify_eq_zero]
  by_cases hdump : mode &&& etDump = 0
  · simp only [hdump, and_true, if_true]
  · simp only [hdump, and_false, if_false, iff_false]
    intro heq
    have hmodify := congrArg (fun m => (m.event place).modify) heq
    rw [Memory.setModify_event] at hmodify
    split at hmodify
    · rw [hL.eventDump, Memory.setModify_event] at hmodify
      exact getModify_ne mode hmodify.symm
    · rw [Memory.setModify_event] at hmodify
      exact getModify_ne mode hmodify.symm

variable (fuel : ℕ) (att mode : Word) (deltatime : Option (ℤ × ℤ)) (m : Memory τ)

/-- **An event is got as the Java server holds it**, and is then where the C server leaves
it. -/
def JavaGetsEvent : Prop :=
  converse (L.javaLoop size) (etrEventGet big fuel att mode deltatime) (.quiet (some m)) =
    match L.gotEvent fuel att mode deltatime m with
    | none => none
    | some (m', .error err) => some (.error err.1, .quiet (some m'))
    | some (m', .ok place) =>
        some (.ok (((m'.event place).toClient big).view place (getModify mode)),
          .quiet (some (L.afterGet att mode m' place)))

/-- **One round of asking for an event**: the client has the event and nothing is left, or the
server's thread ends. -/
theorem converse_javaEventGet_cases {t : Timing} {m m' : Memory τ} {place : Word}
    (hcall : L.getEvent att mode t m = (m', .ok place)) (iterations : ℤ) :
    let r := converse (L.javaLoop size)
      (etrRetry (eventGetRequest att mode t) 1 (mode &&& etWaitMask) isNotOk
        (fun _ => recvEvent big (getModify mode) (.unlock (.ret (.error etErrorRemote)))
          (.unlock (.ret (.error etErrorRemote))) (.unlock (.ret (.error etErrorRead)))
          fun ev => .unlock (.ret (.ok ev)))
        (fuel + 1) iterations) (.quiet (some m))
    ((m'.event place).Gettable size ∧ ∃ after,
      r = some (.ok (((m'.event place).toClient big).view place (getModify mode)),
        .quiet (some after)) ∧
      (L.LikeJava → (after = L.afterGet att mode m' place ↔ mode &&& etDump = 0))) ∨
    (¬ (m'.event place).Gettable size ∧ ∀ a c, r = some (a, c) → c.server = none) := by
  have hrun := L.run_javaEventGet size att mode t m []
  rw [List.append_nil] at hrun
  unfold getEvent at hcall
  rcases hget : L.eventGet att t m with ⟨m₀, err | p⟩
  · rw [hget] at hcall
    exact nomatch (Prod.mk.inj hcall).2
  rw [hget] at hcall hrun
  obtain ⟨rfl, hplace⟩ := Prod.mk.inj hcall
  cases hplace
  dsimp only at hrun
  have hevent : (m₀.setModify (getModify mode) place).event place =
      { m₀.event place with modify := getModify mode } := m₀.setModify_event _ _
  by_cases hgood : (m₀.event place).Gettable size
  · have hgood' : ((m₀.setModify (getModify mode) place).event place).Gettable size := by
      rw [hevent]
      exact hgood
    have hbytes : ((m₀.event place).toClient big).getBytes big place =
        (((m₀.setModify (getModify mode) place).event place).toClient big).getBytes big place := by
      rw [hevent]
      rfl
    have hlen : (((m₀.setModify (getModify mode) place).event place).toClient big).length.toNat <
        2 ^ 31 := by
      have h : 64 + ((m₀.setModify (getModify mode) place).event place).length.toNat < 2 ^ 31 :=
        hgood'.1
      show ((m₀.setModify (getModify mode) place).event place).length.toNat < 2 ^ 31
      omega
    rw [javaEventReply_eq hgood big place, hbytes] at hrun
    have hcode : [etOk].getD 0 0 ≠ etErrorTimeout ∧ isNotOk ([etOk].getD 0 0) = false := by decide
    refine Or.inl ⟨hgood', L.javaAfterGet att mode m₀ place, ?_,
      fun hL => L.javaAfterGet_eq_iff hL att mode m₀ place⟩
    rw [converse_etrRetry_ok (n := 1) hrun rfl hcode,
      ← List.append_nil (MemEvent.getBytes _ _ _), converse_recvEvent hlen]
    rfl
  · -- the server's thread ends without a reply
    have hnone : javaEventReply size place (m₀.event place) = none := by
      rw [← Option.not_isSome_iff_eq_none, javaEventReply_iff]
      exact hgood
    rw [hnone] at hrun
    refine Or.inr ⟨fun h => hgood ?_, fun a c h => ?_⟩
    · rw [hevent] at h
      exact h
    · rw [etrRetry] at h
      exact converse_exchange_stuck hrun (L.javaLoop_none size) h

/-- **Exactly when one round of asking for an event is right.** -/
theorem converse_javaEventGet (hL : L.LikeJava) {t : Timing} {m m' : Memory τ} {place : Word}
    (hcall : L.getEvent att mode t m = (m', .ok place)) (iterations : ℤ) :
    converse (L.javaLoop size)
        (etrRetry (eventGetRequest att mode t) 1 (mode &&& etWaitMask) isNotOk
          (fun _ => recvEvent big (getModify mode) (.unlock (.ret (.error etErrorRemote)))
            (.unlock (.ret (.error etErrorRemote))) (.unlock (.ret (.error etErrorRead)))
            fun ev => .unlock (.ret (.ok ev)))
          (fuel + 1) iterations) (.quiet (some m)) =
        some (.ok (((m'.event place).toClient big).view place (getModify mode)),
          .quiet (some (L.afterGet att mode m' place))) ↔
      mode &&& etDump = 0 ∧ (m'.event place).Gettable size := by
  rcases L.converse_javaEventGet_cases size big fuel att mode hcall iterations with
    ⟨hgood, after, hr, hafter⟩ | ⟨hbad, hended⟩
  · rw [hr, ← hafter hL]
    simp only [Option.some.injEq, Prod.mk.injEq, true_and, Conn.quiet, Conn.mk.injEq, and_true]
    exact (and_iff_left hgood).symm
  · exact iff_of_false (fun h => by cases hended _ _ h) fun h => hbad h.2

theorem javaGetsEvent_iff (hL : L.LikeJava) :
    L.JavaGetsEvent size big fuel att mode deltatime m ↔
      ∀ m' place, L.gotEvent fuel att mode deltatime m = some (m', .ok place) →
        mode &&& etDump = 0 ∧ (m'.event place).Gettable size := by
  have herror : ∀ m m' err, L.getEvent att mode (netTiming mode deltatime).1 m = (m', .error err) →
      L.javaLoop size (some m) (eventGetRequest att mode (netTiming mode deltatime).1) =
        some ((some m', putWords (err.1 :: [])), []) := by
    intro m m' err hcall
    have hrun := L.run_javaEventGet size att mode (netTiming mode deltatime).1 m []
    rw [List.append_nil] at hrun
    unfold getEvent at hcall
    rcases hget : L.eventGet att (netTiming mode deltatime).1 m with ⟨m₀, err' | p⟩
    · rw [hget] at hcall hrun
      cases hcall
      exact hrun
    · rw [hget] at hcall
      exact nomatch (Prod.mk.inj hcall).2
  have h := converse_etrRetry_rel (mode &&& etWaitMask)
    (L.getEvent att mode (netTiming mode deltatime).1) _ []
    (fun m' place r =>
      r = some (.ok (((m'.event place).toClient big).view place (getModify mode)),
          .quiet (some (L.afterGet att mode m' place))) ↔
        mode &&& etDump = 0 ∧ (m'.event place).Gettable size)
    (fun _ _ err _ => isNotOk_failure err) herror
    (fun m m' place fuel iterations hcall =>
      L.converse_javaEventGet size big fuel att mode hL hcall iterations)
    rfl fuel (netTiming mode deltatime).2 m
  revert h
  rw [JavaGetsEvent, etrEventGet, gotEvent]
  generalize askAgain _ _ _ _ _ = answer
  rcases answer with _ | ⟨m', err | place⟩
  · exact fun h => iff_of_true h nofun
  · exact fun h => iff_of_true h nofun
  · refine fun h => Iff.trans h ⟨?_, fun hall => hall m' place rfl⟩
    rintro hgood m'' place' heq
    obtain ⟨rfl, hplace⟩ := Prod.mk.inj (Option.some.inj heq)
    cases hplace
    exact hgood

end Local

/-! ## Getting several events -/

namespace Memory

variable (m : Memory τ) (modify : Word) (places : List Word) (place : Word)

@[simp] theorem setModifyAll_length :
    ((m.setModifyAll modify places).event place).length = (m.event place).length := by
  obtain ⟨w, hw⟩ := m.setModifyAll_event modify places place
  rw [hw]

@[simp] theorem setModifyAll_memsize :
    ((m.setModifyAll modify places).event place).memsize = (m.event place).memsize := by
  obtain ⟨w, hw⟩ := m.setModifyAll_event modify places place
  rw [hw]

@[simp] theorem setModifyAll_datastatus :
    ((m.setModifyAll modify places).event place).datastatus = (m.event place).datastatus := by
  obtain ⟨w, hw⟩ := m.setModifyAll_event modify places place
  rw [hw]

@[simp] theorem setModifyAll_javaBytes :
    ((m.setModifyAll modify places).event place).javaBytes place =
      (m.event place).javaBytes place := by
  obtain ⟨w, hw⟩ := m.setModifyAll_event modify places place
  rw [hw]
  rfl

/-- What a client has of the events of the Java system. -/
def toClient (big : Bool) (m : Memory τ) : Memory τ :=
  { m with event := fun place => (m.event place).toClient big }

/-- **The whole reply can be sent**: all events can be read, and their headers have room in the
buffer after the first 12 bytes of the reply. -/
def Sendable (size : ArraySize) : Prop :=
  (∀ place ∈ places, (m.event place).Readable size) ∧
    JavaFits 12 (places.map fun place => (m.event place).length.toNat)

theorem setModifyAll_sendable (size : ArraySize) (ids : List Word) :
    (m.setModifyAll modify places).Sendable ids size ↔ m.Sendable ids size := by
  simp only [Sendable, MemEvent.Readable, setModifyAll_length, setModifyAll_datastatus]

end Memory

/-- A batch that fits in the buffer has lengths that are `int`s. -/
theorem JavaFits.lt {index : ℕ} {lengths : List ℕ} (h : JavaFits index lengths) {n : ℕ}
    (hn : n ∈ lengths) : n < 2 ^ 31 := by
  induction lengths generalizing index with
  | nil => exact nomatch hn
  | cons length rest ih =>
      obtain ⟨-, hsum, hrest⟩ := h
      rcases List.mem_cons.mp hn with rfl | hn
      · omega
      · exact ih hrest hn

theorem javaEventsReply_iff (size : ArraySize) (m : Memory τ) (ids : List Word) :
    (javaEventsReply size ids m.event).1 = true ↔ m.Sendable ids size := by
  have hlen : (putWords [BitVec.ofNat 32 ids.length, highInt (javaTotal (ids.map m.event)),
      lowInt (javaTotal (ids.map m.event))]).length = 12 := length_putWords _
  rw [javaEventsReply, javaFill_iff, hlen, List.map_map, Memory.Sendable]
  simp only [List.forall_mem_map]
  rfl

theorem javaEventsReply_eq {size : ArraySize} {m : Memory τ} {ids : List Word}
    (h : m.Sendable ids size) (big : Bool) :
    (javaEventsReply size ids m.event).2 =
      putWords [BitVec.ofNat 32 ids.length] ++
        (putWords [highInt (javaTotal (ids.map m.event)), lowInt (javaTotal (ids.map m.event))] ++
          Local.eventsBytes big (m.toClient big) ids) := by
  have hgood := (javaEventsReply_iff size m ids).mpr h
  have hbytes : (ids.map fun id => (id, m.event id)).flatMap (fun p => p.2.javaBytes p.1) =
      Local.eventsBytes big (m.toClient big) ids := by
    rw [List.flatMap_map, Local.eventsBytes]
    simp only [MemEvent.javaBytes_eq big]
    rfl
  rw [javaEventsReply] at hgood ⊢
  rw [javaFill_eq _ _ _ _ hgood, hbytes, List.nil_append, ← List.append_assoc, ← putWords_append]
  rfl

namespace Local

variable (L : Local τ) (size : ArraySize) (big : Bool)

/-- Where the Java server leaves events that were got. -/
def javaAfterGetAll (att mode : Word) (m : Memory τ) (ids : List Word) : Memory τ :=
  let m := m.setModifyAll (javaModify (netModify mode)) ids
  if netModify mode = 0 then (L.eventsPut att ids m).1 else m

theorem run_javaEventsGet (att mode num : Word) (t : Timing) (m : Memory τ) (rest : List Byte) :
    L.javaLoop size (some m) (eventsGetRequest att mode num t ++ rest) =
      match L.eventsGet att t num m with
      | (m', .error err) => some ((some m', putWords [err.1]), rest)
      | (m', .ok ids) =>
          let reply := javaEventsReply size ids.1
            (m'.setModifyAll (javaModify (netModify mode)) ids.1).event
          if reply.1 then some ((some (L.javaAfterGetAll att mode m' ids.1), reply.2), rest)
          else some ((none, reply.2), rest) := by
  rw [eventsGetRequest, putWords_cons, List.append_assoc]
  refine run_bind_of (run_readWord _ _) ?_
  rw [Command.ofCode_code]
  refine run_bind_of (run_readWords (by rfl) _) ?_
  simp only [List.getD_cons_zero, List.getD_cons_succ]
  rcases L.eventsGet att ⟨t.wait, t.sec, t.nsec⟩ num m with ⟨m', err | ids⟩
  · rfl
  · dsimp only
    rw [← netModify]
    split <;> rfl

/-- Exactly without the flag the events are where the C server leaves them, if there are
any. -/
theorem javaAfterGetAll_eq_iff (hL : L.LikeJava) (att mode : Word) (m : Memory τ)
    (ids : List Word) :
    L.javaAfterGetAll att mode m ids =
      L.afterGetAll att mode (m.setModifyAll (getModify mode) ids) ids ↔
        mode &&& etDump = 0 ∨ ids = [] := by
  unfold javaAfterGetAll afterGetAll giveBackAll
  rw [netModify_mask, netModify_and_etDump, javaModify_netModify]
  simp only [netModify_eq_zero]
  by_cases hdump : mode &&& etDump = 0
  · simp only [hdump, and_true, if_true, true_or]
  · simp only [hdump, and_false, if_false, false_or]
    constructor
    · intro heq
      by_contra hne
      obtain ⟨id, hid⟩ := List.exists_mem_of_ne_nil ids hne
      have hmodify := congrArg (fun m => (m.event id).modify) heq
      rw [m.setModifyAll_modify _ hid] at hmodify
      split at hmodify
      · rw [hL.eventsDump, m.setModifyAll_modify _ hid] at hmodify
        exact getModify_ne mode hmodify.symm
      · rw [m.setModifyAll_modify _ hid] at hmodify
        exact getModify_ne mode hmodify.symm
    · rintro rfl
      split
      · exact (hL.dumpNone att m).symm
      · rfl

variable (fuel : ℕ) (att mode num : Word) (deltatime : Option (ℤ × ℤ)) (m : Memory τ)

/-- **Events are got as the Java server holds them**, and are then where the C server leaves
them. -/
def JavaGetsEvents : Prop :=
  converse (L.javaLoop size) (etrEventsGet big fuel att mode num deltatime) (.quiet (some m)) =
    match L.gotEvents fuel att mode num deltatime m with
    | none => none
    | some (m', .error err) => some (.error err.1, .quiet (some m'))
    | some (m', .ok places) =>
        some (.ok ((m'.toClient big).views (getModify mode) places.1),
          .quiet (some (L.afterGetAll att mode m' places.1)))

/-- What the server answers when the local call fails. -/
theorem javaLoop_eventsGet_error {t : Timing} {m m' : Memory τ} {err : Failure}
    (hcall : L.getEvents att mode num t m = (m', .error err)) :
    L.javaLoop size (some m) (eventsGetRequest att mode num t) =
      some ((some m', putWords (err.1 :: [])), []) := by
  have hrun := L.run_javaEventsGet size att mode num t m []
  rw [List.append_nil] at hrun
  unfold getEvents at hcall
  rcases hget : L.eventsGet att t num m with ⟨m₀, err' | ids⟩
  · rw [hget] at hcall hrun
    cases hcall
    exact hrun
  · rw [hget] at hcall
    exact nomatch (Prod.mk.inj hcall).2

/-- What it answers when there are events: the whole reply, or it ends. -/
theorem javaLoop_eventsGet_ok {t : Timing} {m m' : Memory τ} {ids : Places}
    (hcall : L.getEvents att mode num t m = (m', .ok ids)) :
    (m'.Sendable ids.1 size ∧ ∃ total m₂, total.length = 2 ∧
      L.javaLoop size (some m) (eventsGetRequest att mode num t) =
        some ((some m₂, putWords [BitVec.ofNat 32 ids.1.length] ++ (putWords total ++
          eventsBytes big (m'.toClient big) ids.1)), []) ∧
      (L.LikeJava → (m₂ = L.afterGetAll att mode m' ids.1 ↔
        mode &&& etDump = 0 ∨ ids.1 = []))) ∨
    (¬ m'.Sendable ids.1 size ∧ ∃ reply,
      L.javaLoop size (some m) (eventsGetRequest att mode num t) = some ((none, reply), [])) := by
  have hrun := L.run_javaEventsGet size att mode num t m []
  rw [List.append_nil] at hrun
  unfold getEvents at hcall
  rcases hget : L.eventsGet att t num m with ⟨m₀, err | ids'⟩
  · rw [hget] at hcall
    exact nomatch (Prod.mk.inj hcall).2
  rw [hget] at hcall hrun
  obtain ⟨rfl, hids⟩ := Prod.mk.inj hcall
  cases hids
  dsimp only at hrun
  have hsend := m₀.setModifyAll_sendable (javaModify (netModify mode)) ids.1 size ids.1
  rw [Memory.setModifyAll_sendable]
  by_cases hgood : m₀.Sendable ids.1 size
  · refine Or.inl ⟨hgood, ?_⟩
    have hreply := javaEventsReply_eq (hsend.mpr hgood) big
    rw [if_pos ((javaEventsReply_iff size _ _).mpr (hsend.mpr hgood)), hreply] at hrun
    have hbytes : eventsBytes big
          ((m₀.setModifyAll (javaModify (netModify mode)) ids.1).toClient big) ids.1 =
        eventsBytes big ((m₀.setModifyAll (getModify mode) ids.1).toClient big) ids.1 := by
      unfold eventsBytes Memory.toClient
      simp only [← MemEvent.javaBytes_eq, Memory.setModifyAll_javaBytes]
    rw [hbytes] at hrun
    exact ⟨_, _, rfl, hrun, fun hL => L.javaAfterGetAll_eq_iff hL att mode m₀ ids.1⟩
  · rw [if_neg fun h => hgood (hsend.mp ((javaEventsReply_iff size _ _).mp h))] at hrun
    exact Or.inr ⟨hgood, _, hrun⟩

/-- **One round of asking for events**, for a client that reads them with `finish`: the client
has the events and nothing is left, or it has none of them, or the server's thread ends. -/
theorem converse_javaEventsGet_cases {t : Timing} {m m' : Memory τ} {ids : Places}
    (wait : Word) (failed : Word → Bool)
    (finish : List Word → Routine (Except Word (List ClientEvent)))
    (Readable : Prop) (hcall : L.getEvents att mode num t m = (m', .ok ids))
    (hfailed : failed (BitVec.ofNat 32 ids.1.length) = false)
    (hread : m'.Sendable ids.1 size → ∀ (m₂ : Option (Memory τ)) total, total.length = 2 →
      (converse (L.javaLoop size) (finish [BitVec.ofNat 32 ids.1.length])
          ⟨m₂, [], putWords total ++ eventsBytes big (m'.toClient big) ids.1⟩ =
        some (.ok ((m'.toClient big).views (getModify mode) ids.1), .quiet m₂) ∧ Readable) ∨
      (¬ Readable ∧ ∀ evs c, converse (L.javaLoop size) (finish [BitVec.ofNat 32 ids.1.length])
          ⟨m₂, [], putWords total ++ eventsBytes big (m'.toClient big) ids.1⟩ ≠
        some (.ok evs, c)))
    (iterations : ℤ) :
    let r := converse (L.javaLoop size)
      (etrRetry (eventsGetRequest att mode num t) 1 wait failed finish (fuel + 1) iterations)
      (.quiet (some m))
    ((m'.Sendable ids.1 size ∧ Readable) ∧ ∃ after,
      r = some (.ok ((m'.toClient big).views (getModify mode) ids.1), .quiet (some after)) ∧
      (L.LikeJava →
        (after = L.afterGetAll att mode m' ids.1 ↔ mode &&& etDump = 0 ∨ ids.1 = []))) ∨
    (¬ (m'.Sendable ids.1 size ∧ Readable) ∧ ∀ evs after, r ≠ some (.ok evs, .quiet (some after))) := by
  rcases L.javaLoop_eventsGet_ok size big att mode num hcall with
    ⟨hsend, total, m₂, htotal, hserve, hafter⟩ | ⟨hsend, reply, hserve⟩
  · have hcode : ([BitVec.ofNat 32 ids.1.length] : List Word).getD 0 0 ≠ etErrorTimeout ∧
        failed (([BitVec.ofNat 32 ids.1.length] : List Word).getD 0 0) = false :=
      ⟨(isNegative_length ids.2).1, hfailed⟩
    rw [converse_etrRetry_ok (n := 1) hserve rfl hcode]
    rcases hread hsend (some m₂) total htotal with ⟨hok, hreadable⟩ | ⟨hreadable, hno⟩
    · exact Or.inl ⟨⟨hsend, hreadable⟩, m₂, hok, hafter⟩
    · exact Or.inr ⟨fun h => hreadable h.2, fun _ _ => hno _ _⟩
  · refine Or.inr ⟨fun h => hsend h.1, fun evs after h => ?_⟩
    rw [etrRetry] at h
    cases converse_exchange_stuck hserve (L.javaLoop_none size) h

/-- **Exactly when one round of asking for events is right.** -/
theorem converse_javaEventsGet (hL : L.LikeJava) {t : Timing} {m m' : Memory τ} {ids : Places}
    {wait : Word} {failed : Word → Bool}
    {finish : List Word → Routine (Except Word (List ClientEvent))}
    {Readable : Prop} (hcall : L.getEvents att mode num t m = (m', .ok ids))
    (hfailed : failed (BitVec.ofNat 32 ids.1.length) = false)
    (hread : m'.Sendable ids.1 size → ∀ (m₂ : Option (Memory τ)) total, total.length = 2 →
      (converse (L.javaLoop size) (finish [BitVec.ofNat 32 ids.1.length])
          ⟨m₂, [], putWords total ++ eventsBytes big (m'.toClient big) ids.1⟩ =
        some (.ok ((m'.toClient big).views (getModify mode) ids.1), .quiet m₂) ∧ Readable) ∨
      (¬ Readable ∧ ∀ evs c, converse (L.javaLoop size) (finish [BitVec.ofNat 32 ids.1.length])
          ⟨m₂, [], putWords total ++ eventsBytes big (m'.toClient big) ids.1⟩ ≠
        some (.ok evs, c)))
    (iterations : ℤ) :
    converse (L.javaLoop size)
        (etrRetry (eventsGetRequest att mode num t) 1 wait failed finish (fuel + 1) iterations)
        (.quiet (some m)) =
        some (.ok ((m'.toClient big).views (getModify mode) ids.1),
          .quiet (some (L.afterGetAll att mode m' ids.1))) ↔
      (mode &&& etDump = 0 ∨ ids.1 = []) ∧ m'.Sendable ids.1 size ∧ Readable := by
  rcases L.converse_javaEventsGet_cases size big fuel att mode num wait failed finish Readable
      hcall hfailed hread iterations with ⟨hgood, after, hr, hafter⟩ | ⟨hbad, hno⟩
  · rw [hr, ← hafter hL]
    simp only [Option.some.injEq, Prod.mk.injEq, true_and, Conn.quiet, Conn.mk.injEq, and_true]
    exact (and_iff_left hgood).symm
  · exact iff_of_false (hno _ _) fun h => hbad h.2

/-- The client of `et_remote.c` reads all events that are sent. -/
theorem converse_remoteReads {serve : Server (Option (Memory τ))} {m' : Memory τ} {ids : Places}
    (hsend : m'.Sendable ids.1 size) (m₂ : Option (Memory τ)) {total : List Word}
    (htotal : total.length = 2) :
    converse serve
        (.recv 8 fun
          | none => .unlock (.ret (.error etErrorRead))
          | some _ => recvEvents big (getModify mode)
              (([BitVec.ofNat 32 ids.1.length] : List Word).getD 0 0).toNat [])
        ⟨m₂, [], putWords total ++ eventsBytes big (m'.toClient big) ids.1⟩ =
      some (.ok ((m'.toClient big).views (getModify mode) ids.1), .quiet m₂) := by
  have hlen : (BitVec.ofNat 32 ids.1.length).toNat = ids.1.length := by
    have hlt : ids.1.length < 2 ^ 31 := ids.2
    rw [BitVec.toNat_ofNat]
    omega
  have hlengths : ∀ id ∈ ids.1, ((m'.toClient big).event id).length.toNat < 2 ^ 31 :=
    fun id hid => hsend.2.lt (List.mem_map_of_mem hid)
  rw [converse_recv (by rw [length_putWords, htotal])]
  simp only [List.getD_cons_zero, hlen]
  rw [converse_recvEvents _ _ hlengths, List.nil_append]

theorem javaGetsEvents_iff (hL : L.LikeJava) :
    L.JavaGetsEvents size big fuel att mode num deltatime m ↔
      ∀ m' places, L.gotEvents fuel att mode num deltatime m = some (m', .ok places) →
        (mode &&& etDump = 0 ∨ places.1 = []) ∧ m'.Sendable places.1 size := by
  have h := converse_etrRetry_rel (mode &&& etWaitMask)
    (L.getEvents att mode num (netTiming mode deltatime).1)
    (fun incoming => .recv 8 fun
      | none => .unlock (.ret (.error etErrorRead))
      | some _ => recvEvents big (getModify mode) (incoming.getD 0 0).toNat []) []
    (fun m' places r =>
      r = some (.ok ((m'.toClient big).views (getModify mode) places.1),
          .quiet (some (L.afterGetAll att mode m' places.1))) ↔
        (mode &&& etDump = 0 ∨ places.1 = []) ∧ m'.Sendable places.1 size ∧ True)
    (fun _ _ err _ => isNegative_failure err)
    (fun _ _ _ hcall => L.javaLoop_eventsGet_error size att mode num hcall)
    ?_ rfl fuel (netTiming mode deltatime).2 m
  · revert h
    rw [JavaGetsEvents, etrEventsGet, gotEvents]
    rw [converse_choose, if_neg (by decide)]
    generalize askAgain _ _ _ _ _ = answer
    rcases answer with _ | ⟨m', err | places⟩
    · exact fun h => iff_of_true h nofun
    · exact fun h => iff_of_true h nofun
    · refine fun h => Iff.trans h ⟨?_, fun hall => ?_⟩
      · rintro ⟨hdump, hsend, -⟩ m'' places' heq
        obtain ⟨rfl, hplaces⟩ := Prod.mk.inj (Option.some.inj heq)
        cases hplaces
        exact ⟨hdump, hsend⟩
      · obtain ⟨hdump, hsend⟩ := hall m' places rfl
        exact ⟨hdump, hsend, trivial⟩
  · intro m m' ids fuel iterations hcall
    refine L.converse_javaEventsGet size big fuel att mode num hL hcall
      (isNegative_length ids.2).2 ?_ iterations
    exact fun hsend m₂ total htotal =>
      Or.inl ⟨converse_remoteReads size big mode hsend m₂ htotal, trivial⟩

end Local

/-! ### By the Java client -/

/-- The Java client can take the event: its length is no more than its memory, and it has a
byte order mark. -/
def MemEvent.Takeable (e : MemEvent) : Prop :=
  (e.length.toNat : ℤ) ≤ javaInt e.memsize ∧ IsMark e.byteorder

theorem javaInt_of_lt {x : BitVec 64} (h : x.toNat < 2 ^ 31) : javaInt x = x.toNat := by
  have hmod : (x.truncate 32).toNat = x.toNat := by
    rw [BitVec.truncate_eq_setWidth, BitVec.toNat_setWidth]
    omega
  rw [javaInt, BitVec.toInt_eq_toNat_of_lt (by omega), hmod]

/-- A number that is no negative `int`. -/
theorem ofInt_javaInt {x : BitVec 64} (h : x.toNat < 2 ^ 31) : BitVec.ofInt 64 (javaInt x) = x := by
  rw [javaInt_of_lt h, BitVec.ofInt_natCast, BitVec.ofNat_toNat, BitVec.setWidth_eq]

/-- To the Java client the byte order mark is an integer too. -/
@[simp] theorem MemEvent.toClient_true (e : MemEvent) : e.toClient true = e := rfl

/-- The Java client reads the events as the server wrote them. -/
theorem converse_javaRecvEvents {serve : Server (Option (Memory τ))} {modify : Word}
    {s : Option (Memory τ)} {m : Memory τ} (hsize : m.JavaSized) (places : List Word)
    (evs : List ClientEvent) (hlen : ∀ place ∈ places, (m.event place).length.toNat < 2 ^ 31)
    (h : ∀ place ∈ places, (m.event place).Takeable) :
    converse serve (javaRecvEvents modify places.length evs)
        ⟨s, [], Local.eventsBytes true m places⟩ =
      some (.ok (evs ++ m.views modify places), .quiet s) := by
  induction places generalizing evs with
  | nil =>
      rw [Memory.views, List.map_nil, List.append_nil]
      rfl
  | cons place places ih =>
      have hplaces := fun p hp => h p (List.mem_cons_of_mem _ hp)
      have hlens := fun p hp => hlen p (List.mem_cons_of_mem _ hp)
      obtain ⟨hle, hmark⟩ := h place List.mem_cons_self
      have hl := hlen place List.mem_cons_self
      have hheader : (putWords (getHeader true place (m.event place))).length = 60 := by
        rw [length_putWords, length_getHeader]
      have hwords : getWords 15 (putWords (getHeader true place (m.event place))) =
          getHeader true place (m.event place) := getWords_putWords rfl
      have hlength : uint64 ((getHeader true place (m.event place)).getD 0 0)
          ((getHeader true place (m.event place)).getD 1 0) = (m.event place).length :=
        uint64_highInt_lowInt _
      have hmem : uint64 ((getHeader true place (m.event place)).getD 2 0)
          ((getHeader true place (m.event place)).getD 3 0) = (m.event place).memsize :=
        uint64_highInt_lowInt _
      have hgood : ¬ (javaInt (m.event place).memsize < 0 ∨ javaInt (m.event place).length < 0 ∨
          javaInt (m.event place).memsize < javaInt (m.event place).length ∨
          ¬ IsMark ((getHeader true place (m.event place)).getD 7 0)) := by
        rw [javaInt_of_lt hl]
        rintro (hbad | hbad | hbad | hbad)
        · omega
        · omega
        · omega
        · exact hbad hmark
      have hdata : (m.event place).data.length = (javaInt (m.event place).length).toNat := by
        rw [MemEvent.length_data, javaInt_of_lt hl, Int.toNat_natCast]
      rw [Local.eventsBytes, List.flatMap_cons, List.length_cons, javaRecvEvents,
        MemEvent.getBytes, List.append_assoc, converse_recv hheader]
      dsimp only
      rw [hwords, hlength, hmem, if_neg hgood, converse_recv hdata]
      dsimp only
      rw [ofHeader_getHeader, ofInt_javaInt hl, ofInt_javaInt (hsize place)]
      refine (ih _ hlens hplaces).trans ?_
      rw [Memory.views, Memory.views, List.map_cons, List.append_assoc, List.singleton_append]
      rfl

/-- If it cannot take one of them, there is an exception. -/
theorem converse_javaRecvEvents_refused {serve : Server (Option (Memory τ))} {modify : Word}
    {s : Option (Memory τ)} {m : Memory τ} (places : List Word) (evs : List ClientEvent)
    (hlen : ∀ place ∈ places, (m.event place).length.toNat < 2 ^ 31)
    (h : ∃ place ∈ places, ¬ (m.event place).Takeable) (evs' : List ClientEvent)
    (c : Conn (Option (Memory τ))) :
    converse serve (javaRecvEvents modify places.length evs)
        ⟨s, [], Local.eventsBytes true m places⟩ ≠ some (.ok evs', c) := by
  induction places generalizing evs with
  | nil => simp at h
  | cons place places ih =>
      have hlens := fun p hp => hlen p (List.mem_cons_of_mem _ hp)
      have hl := hlen place List.mem_cons_self
      have hheader : (putWords (getHeader true place (m.event place))).length = 60 := by
        rw [length_putWords, length_getHeader]
      have hwords : getWords 15 (putWords (getHeader true place (m.event place))) =
          getHeader true place (m.event place) := getWords_putWords rfl
      have hlength : uint64 ((getHeader true place (m.event place)).getD 0 0)
          ((getHeader true place (m.event place)).getD 1 0) = (m.event place).length :=
        uint64_highInt_lowInt _
      have hmem : uint64 ((getHeader true place (m.event place)).getD 2 0)
          ((getHeader true place (m.event place)).getD 3 0) = (m.event place).memsize :=
        uint64_highInt_lowInt _
      have hdata : (m.event place).data.length = (javaInt (m.event place).length).toNat := by
        rw [MemEvent.length_data, javaInt_of_lt hl, Int.toNat_natCast]
      rw [Local.eventsBytes, List.flatMap_cons, List.length_cons, javaRecvEvents,
        MemEvent.getBytes, List.append_assoc, converse_recv hheader]
      dsimp only
      rw [hwords, hlength, hmem]
      split
      case isTrue => exact fun h => by cases h
      case isFalse hgood =>
        have htake : (m.event place).Takeable := by
          rw [javaInt_of_lt hl] at hgood
          simp only [not_or, not_lt, not_not] at hgood
          exact ⟨hgood.2.2.1, hgood.2.2.2⟩
        obtain ⟨p, hp, hbad⟩ := h
        have hp' : p ∈ places := by
          rcases List.mem_cons.mp hp with rfl | hp
          · exact absurd htake hbad
          · exact hp
        rw [converse_recv hdata]
        exact ih _ hlens ⟨p, hp', hbad⟩

namespace Local

variable (L : Local τ) (size : ArraySize) (fuel : ℕ) (att : Word) (mode : JavaMode)
  (modify : JavaModify) (microSec : ℤ) (count : Word) (m : Memory τ)

/-- What the local call gives when it is repeated as the Java client repeats it. -/
def javaGot : Option (Memory τ × Except Failure Places) :=
  askAgain mode.1 (L.getEvents att modify.1 count (javaTiming mode.1 microSec).1) fuel
    (javaTiming mode.1 microSec).2 m

/-- **The Java client gets events as the Java server holds them**, and they are then where the C
server leaves them. -/
def JavaClientGets : Prop :=
  converse (L.javaLoop size) (javaGetEvents fuel att mode.1 modify.1 microSec count)
      (.quiet (some m)) =
    match L.javaGot fuel att mode modify microSec count m with
    | none => none
    | some (m', .error err) => some (.error err.1, .quiet (some m'))
    | some (m', .ok places) =>
        some (.ok (m'.views modify.1 places.1),
          .quiet (some (L.afterGetAll att modify.1 m' places.1)))

/-- The Java client asks for what the C client asks for. -/
theorem javaEventsGetRequest_eq (t : Timing) :
    javaEventsGetRequest att modify.1 count t = eventsGetRequest att modify.1 count t := by
  have hmodify : getModify modify.1 ||| (modify.1 &&& etDump) = modify.1 := by
    obtain ⟨w, rfl | rfl | rfl⟩ := modify <;> decide
  rw [javaEventsGetRequest, eventsGetRequest, hmodify]

theorem javaSized_getEvents (hL : L.LikeJava) {mode num : Word} {t : Timing} {m m' : Memory τ}
    {ids : Places} (hcall : L.getEvents att mode num t m = (m', .ok ids)) : m'.JavaSized := by
  unfold getEvents at hcall
  rcases hget : L.eventsGet att t num m with ⟨m₀, err | ids'⟩
  · rw [hget] at hcall
    exact nomatch (Prod.mk.inj hcall).2
  · rw [hget] at hcall
    obtain ⟨rfl, -⟩ := Prod.mk.inj hcall
    intro place
    rw [Memory.setModifyAll_memsize]
    exact hL.sized _ _ _ _ _ _ hget place

/-- An exception is thrown for every error of the Java system. -/
theorem javaThrows_getEvents (hL : L.LikeJava) {mode num : Word} {t : Timing} {m m' : Memory τ}
    {err : Failure} (hcall : L.getEvents att mode num t m = (m', .error err)) :
    javaThrows err.1 = true := by
  unfold getEvents at hcall
  rcases hget : L.eventsGet att t num m with ⟨m₀, err' | ids⟩
  · rw [hget] at hcall
    cases hcall
    exact decide_eq_true (hL.error _ _ _ _ _ _ hget)
  · rw [hget] at hcall
    exact nomatch (Prod.mk.inj hcall).2

/-- A number of events is none. -/
theorem javaThrows_length {n : ℕ} (h : n < 2 ^ 31) : javaThrows (BitVec.ofNat 32 n) = false := by
  have hnot := (isNegative_length h).2
  apply decide_eq_false
  intro hmem
  have hneg : ∀ err ∈ javaErrors, isNegative err = true := by
    intro err herr
    simp only [javaErrors, List.mem_cons, List.not_mem_nil, or_false] at herr
    rcases herr with rfl | rfl | rfl | rfl | rfl <;> decide
  rw [hneg _ hmem] at hnot
  exact nomatch hnot

/-- The modification the Java client asks for has no flag. -/
theorem getModify_javaModify : getModify modify.1 = modify.1 ∧ modify.1 &&& etDump = 0 := by
  obtain ⟨w, rfl | rfl | rfl⟩ := modify <;> decide

/-- The Java client reads the events that are sent just when it can take them all. -/
theorem converse_javaReads {serve : Server (Option (Memory τ))} {m' : Memory τ} {ids : Places}
    (hsize : m'.JavaSized) (hsend : m'.Sendable ids.1 size) (m₂ : Option (Memory τ))
    {total : List Word} (htotal : total.length = 2) :
    let r := converse serve
      (.recv 8 fun
        | none => .unlock (.ret (.error etErrorRead))
        | some _ =>
            if isNegative (([BitVec.ofNat 32 ids.1.length] : List Word).getD 0 0) then
              .unlock (.ret (.error etError))
            else javaRecvEvents modify.1
              (([BitVec.ofNat 32 ids.1.length] : List Word).getD 0 0).toNat [])
      ⟨m₂, [], putWords total ++ eventsBytes true (m'.toClient true) ids.1⟩
    (r = some (.ok ((m'.toClient true).views (getModify modify.1) ids.1), .quiet m₂) ∧
      ∀ place ∈ ids.1, (m'.event place).Takeable) ∨
    (¬ (∀ place ∈ ids.1, (m'.event place).Takeable) ∧ ∀ evs c, r ≠ some (.ok evs, c)) := by
  have hlen : (BitVec.ofNat 32 ids.1.length).toNat = ids.1.length := by
    have hlt : ids.1.length < 2 ^ 31 := ids.2
    rw [BitVec.toNat_ofNat]
    omega
  have hlengths : ∀ id ∈ ids.1, (m'.event id).length.toNat < 2 ^ 31 :=
    fun id hid => hsend.2.lt (List.mem_map_of_mem hid)
  rw [converse_recv (by rw [length_putWords, htotal])]
  simp only [List.getD_cons_zero, hlen, (isNegative_length ids.2).2, Bool.false_eq_true, if_false]
  by_cases htake : ∀ place ∈ ids.1, (m'.event place).Takeable
  · refine Or.inl ⟨?_, htake⟩
    refine (converse_javaRecvEvents hsize ids.1 [] hlengths htake).trans ?_
    rw [(getModify_javaModify modify).1, List.nil_append]
    rfl
  · refine Or.inr ⟨htake, ?_⟩
    push Not at htake
    exact converse_javaRecvEvents_refused ids.1 [] hlengths htake

theorem javaClientGets_iff (hL : L.LikeJava) :
    L.JavaClientGets size fuel att mode modify microSec count m ↔
      ∀ m' places, L.javaGot fuel att mode modify microSec count m = some (m', .ok places) →
        m'.Sendable places.1 size ∧ ∀ place ∈ places.1, (m'.event place).Takeable := by
  have hmodify := getModify_javaModify modify
  have h := converse_etrRetry_rel mode.1
    (L.getEvents att modify.1 count (javaTiming mode.1 microSec).1)
    (fun incoming => .recv 8 fun
      | none => .unlock (.ret (.error etErrorRead))
      | some _ =>
          if isNegative (incoming.getD 0 0) then .unlock (.ret (.error etError))
          else javaRecvEvents modify.1 (incoming.getD 0 0).toNat []) []
    (fun m' places r =>
      r = some (.ok ((m'.toClient true).views (getModify modify.1) places.1),
          .quiet (some (L.afterGetAll att modify.1 m' places.1))) ↔
        (modify.1 &&& etDump = 0 ∨ places.1 = []) ∧ m'.Sendable places.1 size ∧
          ∀ place ∈ places.1, (m'.event place).Takeable)
    (fun _ _ _ hcall => L.javaThrows_getEvents att hL hcall)
    (fun _ _ _ hcall => L.javaLoop_eventsGet_error size att modify.1 count hcall)
    ?_ rfl fuel (javaTiming mode.1 microSec).2 m
  · revert h
    rw [JavaClientGets, javaGetEvents, javaEventsGetRequest_eq, javaGot]
    generalize askAgain _ _ _ _ _ = answer
    rcases answer with _ | ⟨m', err | places⟩
    · exact fun h => iff_of_true h nofun
    · exact fun h => iff_of_true h nofun
    · intro h
      dsimp only at h
      rw [hmodify.1] at h
      refine Iff.trans h ⟨?_, fun hall => ⟨Or.inl hmodify.2, hall m' places rfl⟩⟩
      rintro ⟨-, hsend, htake⟩ m'' places' heq
      obtain ⟨rfl, hplaces⟩ := Prod.mk.inj (Option.some.inj heq)
      cases hplaces
      exact ⟨hsend, htake⟩
  · intro m m' ids fuel iterations hcall
    refine L.converse_javaEventsGet size true fuel att modify.1 count hL hcall
      (javaThrows_length ids.2) ?_ iterations
    exact fun hsend m₂ total htotal =>
      converse_javaReads size modify (L.javaSized_getEvents att hL hcall) hsend m₂ htotal

end Local

end EventTransfer
