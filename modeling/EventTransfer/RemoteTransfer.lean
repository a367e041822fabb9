import EventTransfer.RemoteServer

/-!
# Events survive the network

The client's routines that get and put events, run against the command loop.

* `askAgain` is what repeating the local call after each timeout gives.
* `events_survive_iff` — the events a client gets are those the server holds, and an event it
  puts is stored with exactly the client's values, exactly when no length is too large for an
  `int`.
-/

namespace EventTransfer

open Wire Exchange

variable {τ : Type}

/-! ## Asking again -/

/-- **A local call that is repeated** while it times out and the client asks again. -/
def askAgain {α : Type} (wait : Word) (call : Memory τ → Memory τ × Except Failure α) :
    ℕ → ℤ → Memory τ → Option (Memory τ × Except Failure α)
  | 0, _, _ => none
  | fuel + 1, iterations, m =>
      match call m with
      | (m, .ok a) => some (m, .ok a)
      | (m, .error err) =>
          if err.1 = etErrorTimeout ∧ (wait = etSleep ∨ 0 < iterations) then
            askAgain wait call fuel (iterations - 1) m
          else some (m, .error err)

theorem isNegative_failure (err : Failure) : isNegative err.1 = true := decide_eq_true err.2

theorem isNotOk_failure (err : Failure) : isNotOk err.1 = true := by
  apply decide_eq_true
  intro h
  exact absurd err.2 (by rw [h]; decide)

/-- **Asking again over the network**: if the server answers each request that fails as the
local call says, the client goes on with the first answer that is no timeout; `Result` is what
is known of a success.  `state` is the server's state when it waits for a request. -/
theorem converse_etrRetry_via {α β : Type} {σ : Type*} {serve : Server σ}
    {request : List Byte} {n : ℕ} {failed : Word → Bool} (state : Memory τ → σ) (wait : Word)
    (call : Memory τ → Memory τ × Except Failure β)
    (finish : List Word → Routine (Except Word α)) (pad : List Word)
    (Result : Memory τ → β → Option (Except Word α × Conn σ) → Prop)
    (hfailed : ∀ m m' err, call m = (m', .error err) → failed err.1 = true)
    (herror : ∀ m m' err, call m = (m', .error err) →
      serve (state m) request = some ((state m', putWords (err.1 :: pad)), []))
    (hok : ∀ m m' b fuel iterations, call m = (m', .ok b) →
      Result m' b (converse serve (etrRetry request n wait failed finish (fuel + 1) iterations)
        (.quiet (state m))))
    (hpad : pad.length + 1 = n) (fuel : ℕ) (iterations : ℤ) (m : Memory τ) :
    match askAgain wait call fuel iterations m with
    | none =>
        converse serve (etrRetry request n wait failed finish fuel iterations)
          (.quiet (state m)) = none
    | some (m', .error err) =>
        converse serve (etrRetry request n wait failed finish fuel iterations)
          (.quiet (state m)) = some (.error err.1, .quiet (state m'))
    | some (m', .ok b) =>
        Result m' b (converse serve (etrRetry request n wait failed finish fuel iterations)
          (.quiet (state m))) := by
  induction fuel generalizing iterations m with
  | zero => rfl
  | succ fuel ih =>
      rcases hcall : call m with ⟨m', err | b⟩
      · have hlen : (putWords (err.1 :: pad)).length = 4 * n := by
          rw [length_putWords, List.length_cons, hpad]
        have hwords : getWords n (putWords (err.1 :: pad)) = err.1 :: pad :=
          getWords_putWords hpad
        rw [etrRetry, converse_exchange_of_length (herror m m' err hcall) hlen, hwords]
        simp only [List.getD_cons_zero, askAgain, hcall]
        by_cases htimeout : err.1 = etErrorTimeout
        · by_cases hagain : wait = etSleep ∨ 0 < iterations
          · rw [if_pos htimeout, if_pos hagain, if_pos ⟨htimeout, hagain⟩]
            exact ih (iterations - 1) m'
          · rw [if_pos htimeout, if_neg hagain, if_neg fun h => hagain h.2]
            rfl
        · rw [if_neg htimeout, if_pos (hfailed m m' err hcall), if_neg fun h => htimeout h.1]
          rfl
      · simp only [askAgain, hcall]
        exact hok m m' b fuel iterations hcall

/-- The same where the server has no other state. -/
theorem converse_etrRetry_rel {α β : Type} {serve : Server (Option (Memory τ))}
    {request : List Byte} {n : ℕ} {failed : Word → Bool} (wait : Word)
    (call : Memory τ → Memory τ × Except Failure β)
    (finish : List Word → Routine (Except Word α)) (pad : List Word)
    (Result : Memory τ → β → Option (Except Word α × Conn (Option (Memory τ))) → Prop)
    (hfailed : ∀ m m' err, call m = (m', .error err) → failed err.1 = true)
    (herror : ∀ m m' err, call m = (m', .error err) →
      serve (some m) request = some ((some m', putWords (err.1 :: pad)), []))
    (hok : ∀ m m' b fuel iterations, call m = (m', .ok b) →
      Result m' b (converse serve (etrRetry request n wait failed finish (fuel + 1) iterations)
        (.quiet (some m))))
    (hpad : pad.length + 1 = n) (fuel : ℕ) (iterations : ℤ) (m : Memory τ) :
    match askAgain wait call fuel iterations m with
    | none =>
        converse serve (etrRetry request n wait failed finish fuel iterations)
          (.quiet (some m)) = none
    | some (m', .error err) =>
        converse serve (etrRetry request n wait failed finish fuel iterations)
          (.quiet (some m)) = some (.error err.1, .quiet (some m'))
    | some (m', .ok b) =>
        Result m' b (converse serve (etrRetry request n wait failed finish fuel iterations)
          (.quiet (some m))) :=
  converse_etrRetry_via some wait call finish pad Result hfailed herror hok hpad fuel iterations m

/-- The answer to a request that succeeds. -/
theorem converse_etrRetry_ok {α : Type} {σ : Type*} {serve : Server σ} {request : List Byte}
    {n : ℕ} {wait : Word} {failed : Word → Bool} {finish : List Word → Routine (Except Word α)}
    {s after : σ} {first : List Word} {rest : List Byte}
    (hserve : serve s request = some ((after, putWords first ++ rest), []))
    (hfirst : first.length = n)
    (hcode : first.getD 0 0 ≠ etErrorTimeout ∧ failed (first.getD 0 0) = false)
    (fuel : ℕ) (iterations : ℤ) :
    converse serve (etrRetry request n wait failed finish (fuel + 1) iterations)
      (.quiet s) = converse serve (finish first) ⟨after, [], rest⟩ := by
  have hlen : (putWords first).length = 4 * n := by
    rw [length_putWords, hfirst]
  have hwords : getWords n (putWords first) = first := getWords_putWords hfirst
  obtain ⟨htimeout, hnot⟩ := hcode
  rw [etrRetry, converse_exchange hserve hlen, hwords]
  dsimp only
  rw [if_neg htimeout, if_neg (by rw [hnot]; decide)]

/-- Asking again, where the server answers each request as the local call says. -/
theorem converse_etrRetry {α β : Type} {serve : Server (Option (Memory τ))} {request : List Byte}
    {n : ℕ} {wait : Word} {failed : Word → Bool}
    (call : Memory τ → Memory τ × Except Failure β)
    (finish : List Word → Routine (Except Word α)) (pad : List Word)
    (first : Memory τ → β → List Word) (rest : Memory τ → β → List Byte)
    (after : Memory τ → β → Option (Memory τ))
    (hfailed : ∀ err : Failure, failed err.1 = true)
    (herror : ∀ m m' err, call m = (m', .error err) →
      serve (some m) request = some ((some m', putWords (err.1 :: pad)), []))
    (hok : ∀ m m' b, call m = (m', .ok b) →
      serve (some m) request = some ((after m' b, putWords (first m' b) ++ rest m' b), []))
    (hpad : pad.length + 1 = n) (hfirst : ∀ m b, (first m b).length = n)
    (hcode : ∀ m b, (first m b).getD 0 0 ≠ etErrorTimeout ∧ failed ((first m b).getD 0 0) = false)
    (fuel : ℕ) (iterations : ℤ) (m : Memory τ) :
    converse serve (etrRetry request n wait failed finish fuel iterations) (.quiet (some m)) =
      match askAgain wait call fuel iterations m with
      | none => none
      | some (m', .error err) => some (.error err.1, .quiet (some m'))
      | some (m', .ok b) => converse serve (finish (first m' b)) ⟨after m' b, [], rest m' b⟩ := by
  have h := converse_etrRetry_rel wait call finish pad
    (fun m' b r => r = converse serve (finish (first m' b)) ⟨after m' b, [], rest m' b⟩)
    (fun _ _ err _ => hfailed err)
    herror (fun m m' b fuel iterations hcall =>
      converse_etrRetry_ok (hok m m' b hcall) (hfirst m' b) (hcode m' b) fuel iterations)
    hpad fuel iterations m
  revert h
  rcases askAgain wait call fuel iterations m with _ | ⟨m', err | b⟩ <;> exact id

/-! ## Modes -/

/-- A bit of a word is set or not. -/
theorem and_bit (w : Word) (i : ℕ) :
    w &&& BitVec.twoPow 32 i = 0 ∨ w &&& BitVec.twoPow 32 i = BitVec.twoPow 32 i := by
  rw [BitVec.and_twoPow]
  split
  · exact .inr rfl
  · exact .inl rfl

theorem and_etModify (mode : Word) : mode &&& etModify = 0 ∨ mode &&& etModify = etModify :=
  and_bit mode 2

theorem and_etModifyHeader (mode : Word) :
    mode &&& etModifyHeader = 0 ∨ mode &&& etModifyHeader = etModifyHeader := and_bit mode 3

theorem and_etDump (mode : Word) : mode &&& etDump = 0 ∨ mode &&& etDump = etDump := and_bit mode 4

theorem getModify_cases (mode : Word) :
    getModify mode = 0 ∨ getModify mode = etModify ∨ getModify mode = etModifyHeader := by
  unfold getModify
  rcases and_etModify mode with h | h <;> rcases and_etModifyHeader mode with h' | h' <;>
    simp only [h, h'] <;> decide

/-- What the client asks for: how it modifies the events, and whether they are dumped. -/
def netModify (mode : Word) : Word := getModify mode ||| (mode &&& etDump)

/-- The server notes what the client notes. -/
theorem netModify_mask (mode : Word) :
    netModify mode &&& (etModify ||| etModifyHeader) = getModify mode := by
  unfold netModify
  rcases getModify_cases mode with h | h | h <;> rcases and_etDump mode with h' | h' <;>
    rw [h, h'] <;> decide

/-! ## Getting one event -/

namespace Local

variable (L : Local τ) (big : Bool)

/-- The local call, and the note of how the event is to be modified. -/
def getEvent (att mode : Word) (t : Timing) (m : Memory τ) : Memory τ × Except Failure Word :=
  match L.eventGet att t m with
  | (m, .ok place) => (m.setModify (getModify mode) place, .ok place)
  | (m, .error err) => (m, .error err)

/-- The event goes back unless the client modifies it. -/
def afterGet (att mode : Word) (m : Memory τ) (place : Word) : Memory τ :=
  L.giveBack (netModify mode) att place m

theorem run_eventGet (att mode : Word) (t : Timing) (m : Memory τ) (rest : List Byte) :
    L.commandLoop big (some m) (eventGetRequest att mode t ++ rest) =
      match L.getEvent att mode t m with
      | (m', .error err) => some ((some m', putWords [err.1]), rest)
      | (m', .ok place) =>
          some (writev (L.afterGet att mode m' place)
            (putWords [etOk] ++ (m'.event place).getBytes big place), rest) := by
  rw [eventGetRequest, putWords_cons, List.append_assoc, run_commandLoop]
  refine run_bind_of (run_readWords (by rfl) _) ?_
  simp only [List.getD_cons_zero, List.getD_cons_succ, getEvent]
  rcases L.eventGet att ⟨t.wait, t.sec, t.nsec⟩ m with ⟨m', err | place⟩
  · rfl
  · have hmask := netModify_mask mode
    rw [netModify] at hmask
    simp only [hmask, afterGet, netModify]
    rfl

end Local

/-- Header and data of an event are read as the server wrote them, if the length is one. -/
theorem converse_recvEvent {α : Type} {serve : Server (Option (Memory τ))} {big : Bool}
    {modify place : Word} {noEvent noData readError : Routine α} {next : ClientEvent → Routine α}
    {s : Option (Memory τ)} {up rest : List Byte} {e : MemEvent}
    (h : e.length.toNat < 2 ^ 31) :
    converse serve (recvEvent big modify noEvent noData readError next)
        ⟨s, up, e.getBytes big place ++ rest⟩ =
      converse serve (next (e.view place modify)) ⟨s, up, rest⟩ := by
  have hheader : (putWords (getHeader big place e)).length = 60 := by
    rw [length_putWords, length_getHeader]
  have hwords : getWords 15 (putWords (getHeader big place e)) = getHeader big place e :=
    getWords_putWords rfl
  have hlen : uint64 ((getHeader big place e).getD 0 0) ((getHeader big place e).getD 1 0) =
      e.length := uint64_highInt_lowInt _
  rw [recvEvent, MemEvent.getBytes, List.append_assoc, converse_recv hheader]
  dsimp only
  rw [hwords, hlen, converse_choose, if_neg (by decide), converse_choose, if_neg (by decide)]
  by_cases hzero : e.length = 0
  · have hdata : e.data = [] := by
      rw [MemEvent.data, hzero]
      rfl
    have hview := ofHeader_getHeader big place modify e
    rw [hdata] at hview
    rw [if_pos hzero, hview, hdata, List.nil_append]
  · have hdata : e.data.length = intLen e.length := by
      rw [MemEvent.length_data, intLen_of_lt h]
    rw [if_neg hzero, recvData, converse_recv hdata, if_pos h]
    simp only [ofHeader_getHeader]

/-- If it is none, the client gives up. -/
theorem converse_recvEvent_long {α : Type} {serve : Server (Option (Memory τ))} {big : Bool}
    {modify place : Word} {noEvent noData readError : Routine α} {next : ClientEvent → Routine α}
    {s : Option (Memory τ)} {up rest : List Byte} {e : MemEvent}
    (h : 2 ^ 31 ≤ e.length.toNat) :
    converse serve (recvEvent big modify noEvent noData readError next)
        ⟨s, up, e.getBytes big place ++ rest⟩ =
      converse serve readError ⟨s, up, (e.data ++ rest).drop (intLen e.length)⟩ := by
  have hheader : (putWords (getHeader big place e)).length = 60 := by
    rw [length_putWords, length_getHeader]
  have hwords : getWords 15 (putWords (getHeader big place e)) = getHeader big place e :=
    getWords_putWords rfl
  have hlen : uint64 ((getHeader big place e).getD 0 0) ((getHeader big place e).getD 1 0) =
      e.length := uint64_highInt_lowInt _
  have hzero : e.length ≠ 0 := by
    intro hzero
    rw [hzero] at h
    exact absurd h (by decide)
  have hle : intLen e.length ≤ (e.data ++ rest).length := by
    rw [List.length_append, MemEvent.length_data]
    exact (intLen_le _).trans (Nat.le_add_right _ _)
  rw [recvEvent, MemEvent.getBytes, List.append_assoc, converse_recv hheader]
  dsimp only
  rw [hwords, hlen, converse_choose, if_neg (by decide), converse_choose, if_neg (by decide)]
  rw [if_neg hzero, recvData, converse, if_pos hle, if_neg (not_lt.mpr h)]

/-- Whether the write fails or not, the reply is on its way. -/
theorem writev_eq (m : Memory τ) (reply : List Byte) :
    writev m reply = ((writev m reply).1, reply) := by
  unfold writev
  split <;> rfl

theorem writev_of_not {m : Memory τ} {reply : List Byte} (h : writevFails reply.length = false) :
    (writev m reply).1 = some m := by
  rw [writev, if_neg (by rw [h]; decide)]

theorem writevFails_eq_false {n : ℕ} (h : n + 1 < 2 ^ 32) : writevFails n = false := by
  apply decide_eq_false
  omega

namespace Local

variable (L : Local τ) (big : Bool) (fuel : ℕ) (att mode : Word) (deltatime : Option (ℤ × ℤ))
  (m : Memory τ)

/-- What the local call gives when it is repeated as the client repeats it. -/
def gotEvent : Option (Memory τ × Except Failure Word) :=
  askAgain (mode &&& etWaitMask) (L.getEvent att mode (netTiming mode deltatime).1) fuel
    (netTiming mode deltatime).2 m

/-- **An event is got as the server holds it.** -/
def GetsEvent : Prop :=
  converse (L.commandLoop big) (etrEventGet big fuel att mode deltatime) (.quiet (some m)) =
    match L.gotEvent fuel att mode deltatime m with
    | none => none
    | some (m', .error err) => some (.error err.1, .quiet (some m'))
    | some (m', .ok place) =>
        some (.ok ((m'.event place).view place (getModify mode)),
          .quiet (some (L.afterGet att mode m' place)))

/-- What the client does with the answer of the server. -/
theorem converse_etrEventGet :
    converse (L.commandLoop big) (etrEventGet big fuel att mode deltatime) (.quiet (some m)) =
      match L.gotEvent fuel att mode deltatime m with
      | none => none
      | some (m', .error err) => some (.error err.1, .quiet (some m'))
      | some (m', .ok place) =>
          converse (L.commandLoop big)
            (recvEvent big (getModify mode) (.unlock (.ret (.error etErrorRemote)))
              (.unlock (.ret (.error etErrorRemote))) (.unlock (.ret (.error etErrorRead)))
              fun ev => .unlock (.ret (.ok ev)))
            ⟨(writev (L.afterGet att mode m' place)
              (putWords [etOk] ++ (m'.event place).getBytes big place)).1, [],
              (m'.event place).getBytes big place⟩ := by
  unfold etrEventGet gotEvent
  dsimp only
  refine (converse_etrRetry (L.getEvent att mode (netTiming mode deltatime).1) _ []
    (fun _ _ => [etOk])
    (fun m' place => (m'.event place).getBytes big place)
    (fun m' place => (writev (L.afterGet att mode m' place)
      (putWords [etOk] ++ (m'.event place).getBytes big place)).1)
    isNotOk_failure ?_ ?_ rfl (fun _ _ => rfl) (fun _ _ => ⟨by decide, by decide⟩)
    _ _ _).trans ?_
  · intro m m' err hcall
    have hrun := L.run_eventGet big att mode (netTiming mode deltatime).1 m []
    rw [List.append_nil, hcall] at hrun
    exact hrun
  · intro m m' place hcall
    have hrun := L.run_eventGet big att mode (netTiming mode deltatime).1 m []
    rw [List.append_nil, hcall] at hrun
    rw [hrun]
    dsimp only
    rw [writev_eq]
  · rcases askAgain _ _ _ _ _ with _ | ⟨m', err | place⟩ <;> rfl

/-- **Exactly when an event is got as the server holds it.** -/
theorem getsEvent_iff :
    L.GetsEvent big fuel att mode deltatime m ↔
      ∀ m' place, L.gotEvent fuel att mode deltatime m = some (m', .ok place) →
        (m'.event place).length.toNat < 2 ^ 31 := by
  rw [GetsEvent, converse_etrEventGet]
  rcases L.gotEvent fuel att mode deltatime m with _ | ⟨m', err | place⟩
  · simp
  · simp
  · constructor
    · rintro h m'' place' heq
      obtain ⟨rfl, hplace⟩ := Prod.mk.inj (Option.some.inj heq)
      cases hplace
      by_contra hlong
      dsimp only at h
      rw [← List.append_nil (MemEvent.getBytes _ _ _), converse_recvEvent_long (not_lt.mp hlong)] at h
      exact nomatch h
    · intro h
      have hlen := h m' place rfl
      have hwrite : writevFails
          (putWords [etOk] ++ (m'.event place).getBytes big place).length = false := by
        apply writevFails_eq_false
        rw [MemEvent.getBytes, List.length_append, List.length_append, length_putWords,
          length_putWords, length_getHeader, MemEvent.length_data, List.length_singleton]
        omega
      dsimp only
      rw [writev_of_not hwrite, ← List.append_nil (MemEvent.getBytes _ _ _),
        converse_recvEvent hlen]
      rfl

/-! ## Getting several events -/

/-- The local call, and the note of how the events are to be modified. -/
def getEvents (att mode num : Word) (t : Timing) (m : Memory τ) :
    Memory τ × Except Failure Places :=
  match L.eventsGet att t num m with
  | (m, .ok places) => (m.setModifyAll (getModify mode) places.1, .ok places)
  | (m, .error err) => (m, .error err)

/-- The events go back unless the client modifies them. -/
def afterGetAll (att mode : Word) (m : Memory τ) (places : List Word) : Memory τ :=
  L.giveBackAll (netModify mode) att places m

theorem run_eventsGet (att mode num : Word) (t : Timing) (m : Memory τ) (rest : List Byte) :
    L.commandLoop big (some m) (eventsGetRequest att mode num t ++ rest) =
      match L.getEvents att mode num t m with
      | (m', .error err) => some ((some m', putWords [err.1]), rest)
      | (m', .ok places) =>
          some (writev (L.afterGetAll att mode m' places.1) (eventsReply big m' places.1), rest) := by
  rw [eventsGetRequest, putWords_cons, List.append_assoc, run_commandLoop]
  refine run_bind_of (run_readWords (by rfl) _) ?_
  simp only [List.getD_cons_zero, List.getD_cons_succ, getEvents]
  rcases L.eventsGet att ⟨t.wait, t.sec, t.nsec⟩ num m with ⟨m', err | places⟩
  · rfl
  · have hmask := netModify_mask mode
    rw [netModify] at hmask
    simp only [hmask, afterGetAll, netModify]
    rfl

end Local

/-- What a client should have of the events at the given places. -/
def Memory.views (m : Memory τ) (modify : Word) (places : List Word) : List ClientEvent :=
  places.map fun place => (m.event place).view place modify

/-- All events are read as the server wrote them, if their lengths are ones. -/
theorem converse_recvEvents {serve : Server (Option (Memory τ))} {big : Bool} {modify : Word}
    {s : Option (Memory τ)} {m : Memory τ} (places : List Word) (evs : List ClientEvent)
    (h : ∀ place ∈ places, (m.event place).length.toNat < 2 ^ 31) :
    converse serve (recvEvents big modify places.length evs)
        ⟨s, [], Local.eventsBytes big m places⟩ =
      some (.ok (evs ++ m.views modify places), .quiet s) := by
  induction places generalizing evs with
  | nil =>
      rw [Memory.views, List.map_nil, List.append_nil]
      rfl
  | cons place places ih =>
      have hplace := h place List.mem_cons_self
      have hplaces := fun p hp => h p (List.mem_cons_of_mem _ hp)
      rw [Local.eventsBytes, List.flatMap_cons, List.length_cons, recvEvents,
        converse_recvEvent hplace]
      refine (ih _ hplaces).trans ?_
      rw [Memory.views, Memory.views, List.map_cons, List.append_assoc, List.singleton_append]

/-- If one of them is none, the client gives up. -/
theorem converse_recvEvents_long {serve : Server (Option (Memory τ))} {big : Bool}
    {modify : Word} {s : Option (Memory τ)} {m : Memory τ} (places : List Word)
    (evs : List ClientEvent) (h : ∃ place ∈ places, 2 ^ 31 ≤ (m.event place).length.toNat) :
    ∃ c, converse serve (recvEvents big modify places.length evs)
        ⟨s, [], Local.eventsBytes big m places⟩ = some (.error etErrorRead, c) := by
  induction places generalizing evs with
  | nil => simp at h
  | cons place places ih =>
      rw [Local.eventsBytes, List.flatMap_cons, List.length_cons, recvEvents]
      by_cases hplace : (m.event place).length.toNat < 2 ^ 31
      · rw [converse_recvEvent hplace]
        obtain ⟨p, hp, hlong⟩ := h
        rcases List.mem_cons.mp hp with rfl | hp
        · exact absurd hplace (not_lt.mpr hlong)
        · exact ih _ ⟨p, hp, hlong⟩
      · rw [converse_recvEvent_long (not_lt.mp hplace)]
        exact ⟨_, rfl⟩

namespace Local

variable (L : Local τ) (big : Bool) (fuel : ℕ) (att mode num : Word)
  (deltatime : Option (ℤ × ℤ)) (m : Memory τ)

/-- What the local call gives when it is repeated as the client repeats it. -/
def gotEvents : Option (Memory τ × Except Failure Places) :=
  askAgain (mode &&& etWaitMask) (L.getEvents att mode num (netTiming mode deltatime).1) fuel
    (netTiming mode deltatime).2 m

/-- **Events are got as the server holds them.** -/
def GetsEvents : Prop :=
  converse (L.commandLoop big) (etrEventsGet big fuel att mode num deltatime) (.quiet (some m)) =
    match L.gotEvents fuel att mode num deltatime m with
    | none => none
    | some (m', .error err) => some (.error err.1, .quiet (some m'))
    | some (m', .ok places) =>
        some (.ok (m'.views (getModify mode) places.1),
          .quiet (some (L.afterGetAll att mode m' places.1)))

theorem toInt_ofNat {n : ℕ} (h : n < 2 ^ 31) : (BitVec.ofNat 32 n).toInt = n := by
  have htoNat : (BitVec.ofNat 32 n).toNat = n := by
    rw [BitVec.toNat_ofNat]
    omega
  rw [BitVec.toInt_eq_toNat_of_lt (by omega), htoNat]

/-- A number of events is no error code. -/
theorem isNegative_length {n : ℕ} (h : n < 2 ^ 31) :
    BitVec.ofNat 32 n ≠ etErrorTimeout ∧ isNegative (BitVec.ofNat 32 n) = false := by
  have htoInt := toInt_ofNat h
  constructor
  · intro heq
    rw [heq] at htoInt
    exact absurd htoInt (by rw [etErrorTimeout]; simp)
  · exact decide_eq_false (by rw [htoInt]; omega)

/-- What the client does with the answer of the server. -/
theorem converse_etrEventsGet :
    converse (L.commandLoop big) (etrEventsGet big fuel att mode num deltatime)
        (.quiet (some m)) =
      match L.gotEvents fuel att mode num deltatime m with
      | none => none
      | some (m', .error err) => some (.error err.1, .quiet (some m'))
      | some (m', .ok places) =>
          converse (L.commandLoop big) (recvEvents big (getModify mode) places.1.length [])
            ⟨(writev (L.afterGetAll att mode m' places.1) (eventsReply big m' places.1)).1, [],
              eventsBytes big m' places.1⟩ := by
  unfold etrEventsGet gotEvents
  dsimp only
  rw [converse_choose, if_neg (by decide)]
  refine (converse_etrRetry (L.getEvents att mode num (netTiming mode deltatime).1) _ []
    (fun _ places => [BitVec.ofNat 32 places.1.length])
    (fun m' places =>
      let size := BitVec.ofNat 64 (eventsBytes big m' places.1).length
      putWords [highInt size, lowInt size] ++ eventsBytes big m' places.1)
    (fun m' places =>
      (writev (L.afterGetAll att mode m' places.1) (eventsReply big m' places.1)).1)
    isNegative_failure ?_ ?_ rfl (fun _ _ => rfl) (fun _ places => isNegative_length places.2)
    _ _ _).trans ?_
  · intro m m' err hcall
    have hrun := L.run_eventsGet big att mode num (netTiming mode deltatime).1 m []
    rw [List.append_nil, hcall] at hrun
    exact hrun
  · intro m m' places hcall
    have hrun := L.run_eventsGet big att mode num (netTiming mode deltatime).1 m []
    rw [List.append_nil, hcall] at hrun
    rw [hrun]
    dsimp only
    rw [writev_eq]
    rfl
  · rcases askAgain _ _ _ _ _ with _ | ⟨m', err | places⟩
    · rfl
    · rfl
    · have hlen : (BitVec.ofNat 32 places.1.length).toNat = places.1.length := by
        have hlt : places.1.length < 2 ^ 31 := places.2
        rw [BitVec.toNat_ofNat]
        omega
      dsimp only
      rw [converse_recv (by rw [length_putWords]; rfl)]
      simp only [List.getD_cons_zero, hlen]

/-- **Exactly when events are got as the server holds them.** -/
theorem getsEvents_iff :
    L.GetsEvents big fuel att mode num deltatime m ↔
      ∀ m' places, L.gotEvents fuel att mode num deltatime m = some (m', .ok places) →
        (∀ place ∈ places.1, (m'.event place).length.toNat < 2 ^ 31) ∧
        writevFails (eventsReply big m' places.1).length = false := by
  rw [GetsEvents, converse_etrEventsGet]
  rcases L.gotEvents fuel att mode num deltatime m with _ | ⟨m', err | places⟩
  · simp
  · simp
  · constructor
    · rintro h m'' places' heq
      obtain ⟨rfl, hplaces⟩ := Prod.mk.inj (Option.some.inj heq)
      cases hplaces
      dsimp only at h
      have hlen : ∀ place ∈ places.1, (m'.event place).length.toNat < 2 ^ 31 := by
        by_contra hlong
        push Not at hlong
        obtain ⟨c, hc⟩ := converse_recvEvents_long places.1 [] hlong
        rw [hc] at h
        cases h
      refine ⟨hlen, ?_⟩
      rw [converse_recvEvents _ _ hlen] at h
      have hserver := congrArg (fun r => r.map fun p => p.2.server) h
      simp only [Option.map_some, Conn.quiet, Option.some.injEq, writev] at hserver
      cases hfails : writevFails (eventsReply big m' places.1).length with
      | false => rfl
      | true =>
          rw [hfails, if_pos rfl] at hserver
          cases hserver
    · intro h
      obtain ⟨hlen, hwrite⟩ := h m' places rfl
      dsimp only
      rw [writev_of_not hwrite, converse_recvEvents _ _ hlen]
      rfl

end Local

/-! ## Putting events -/

/-- The data sent of an event that is put. -/
def ClientEvent.sentData (ev : ClientEvent) : List Byte :=
  if ev.modify = etModify then (ev.pdata.getD .empty).read ev.length.toNat else []

/-- The length of the data sent is an `int`. -/
def ClientEvent.Short (ev : ClientEvent) : Prop := ev.modify = etModify → ev.length.toNat < 2 ^ 31

theorem ClientEvent.Short.length_sentData {ev : ClientEvent} (h : ev.Short) :
    ev.sentData.length < 2 ^ 31 := by
  unfold sentData
  split
  case isTrue hmodify =>
    rw [Buffer.length_read]
    exact h hmodify
  case isFalse => decide

/-- **The server's event is the one the client got or made**: both have noted the same
modification, and it has as much memory as the client thinks. -/
structure Obtained (m : Memory τ) (ev : ClientEvent) : Prop where
  modify : (m.event ev.place).modify = etModify ↔ ev.modify = etModify
  memsize : (m.event ev.place).memsize = ev.memsize

/-- The client's values of an event are stored. -/
def Memory.store (m : Memory τ) (ev : ClientEvent) : Memory τ := m.update ev.place (·.store ev)

/-- The client's values of several events are stored. -/
def Memory.storeAll (m : Memory τ) (evs : List ClientEvent) : Memory τ := evs.foldl Memory.store m

/-- The header of an event is stored. -/
def Memory.storeHeader (m : Memory τ) (big : Bool) (ev : ClientEvent) : Memory τ :=
  m.update ev.place (·.storeHeader big (putHeader big ev))

/-- Storing an event changes neither its modification nor its memory. -/
theorem Obtained.store {m : Memory τ} {ev : ClientEvent} (h : Obtained m ev) (ev' : ClientEvent) :
    Obtained (m.store ev') ev := by
  by_cases hplace : ev.place = ev'.place
  · have hevent : (m.store ev').event ev.place = (m.event ev.place).store ev' := by
      rw [Memory.store, hplace, Memory.update_event]
    exact ⟨by rw [hevent]; exact h.modify, by rw [hevent]; exact h.memsize⟩
  · have hevent : (m.store ev').event ev.place = m.event ev.place :=
      m.update_event_of_ne _ hplace
    exact ⟨by rw [hevent]; exact h.modify, by rw [hevent]; exact h.memsize⟩

/-- **The data of an event are stored as the client wrote them.** -/
theorem run_readData (big : Bool) {m : Memory τ} {ev : ClientEvent} (h : Obtained m ev)
    (hfit : ev.length ≤ ev.memsize) (hshort : ev.Short) (rest : List Byte) :
    (readData (m.storeHeader big ev) ev.place).run (ev.sentData ++ rest) =
      some (some (m.store ev), rest) := by
  have hevent : (m.storeHeader big ev).event ev.place =
      (m.event ev.place).storeHeader big (putHeader big ev) := m.update_event _ _
  rw [storeHeader_putHeader] at hevent
  unfold readData ClientEvent.sentData
  rw [hevent]
  dsimp only
  by_cases hmodify : ev.modify = etModify
  · have hread : ((ev.pdata.getD .empty).read ev.length.toNat).length = intLen ev.length := by
      rw [Buffer.length_read, intLen_of_lt (hshort hmodify)]
    rw [if_pos (h.modify.mpr hmodify), if_pos (hshort hmodify), h.memsize, if_pos hfit,
      if_pos hmodify]
    refine run_bind_of (run_readBytes hread rest) ?_
    rw [Memory.storeHeader, Memory.update_update]
    simp only [storeHeader_putHeader]
    simp [Memory.store, MemEvent.store, hmodify, Memory.update]
  · rw [if_neg (mt h.modify.mp hmodify), if_neg hmodify]
    simp [Memory.storeHeader, Memory.store, MemEvent.store, hmodify, Memory.update,
      storeHeader_putHeader]

/-- Data that are too long end the loop. -/
theorem run_readData_long (big : Bool) {m : Memory τ} {ev : ClientEvent} (h : Obtained m ev)
    (hlong : ¬ ev.Short) (bytes : List Byte) :
    (readData (m.storeHeader big ev) ev.place).run bytes = some (none, bytes) := by
  have hevent : (m.storeHeader big ev).event ev.place =
      (m.event ev.place).storeHeader big (putHeader big ev) := m.update_event _ _
  rw [storeHeader_putHeader] at hevent
  obtain ⟨hmodify, hlen⟩ := Classical.not_imp.mp hlong
  unfold readData
  rw [hevent]
  dsimp only
  rw [if_pos (h.modify.mpr hmodify), if_neg hlen]
  rfl

/-- **Several events are stored as the client wrote them.** -/
theorem run_readPuts (big : Bool) {m : Memory τ} (evs : List ClientEvent)
    (h : ∀ ev ∈ evs, Obtained m ev) (hfit : ∀ ev ∈ evs, ev.length ≤ ev.memsize)
    (hshort : ∀ ev ∈ evs, ev.Short) (rest : List Byte) :
    (readPuts big evs.length m).run (evs.flatMap (·.putBytes big) ++ rest) =
      some ((some (m.storeAll evs), evs.map (·.place)), rest) := by
  induction evs generalizing m with
  | nil => rfl
  | cons ev evs ih =>
      have hevs : ∀ e ∈ evs, Obtained (m.store ev) e :=
        fun e he => (h e (List.mem_cons_of_mem _ he)).store ev
      have hrest := ih hevs (fun e he => hfit e (List.mem_cons_of_mem _ he))
        fun e he => hshort e (List.mem_cons_of_mem _ he)
      rw [List.flatMap_cons, ClientEvent.putBytes, List.append_assoc, List.append_assoc,
        List.length_cons, readPuts]
      refine run_bind_of (run_readWords (by rfl) _) ?_
      refine run_bind_of (run_readData big (h ev List.mem_cons_self)
        (hfit ev List.mem_cons_self) (hshort ev List.mem_cons_self) _) ?_
      exact run_bind_of hrest rfl

/-- One event whose data are too long ends the loop. -/
theorem run_readPuts_long (big : Bool) {m : Memory τ} (evs : List ClientEvent)
    (h : ∀ ev ∈ evs, Obtained m ev) (hfit : ∀ ev ∈ evs, ev.length ≤ ev.memsize)
    (hlong : ∃ ev ∈ evs, ¬ ev.Short) :
    ∃ places rest, (readPuts big evs.length m).run (evs.flatMap (·.putBytes big)) =
      some ((none, places), rest) := by
  induction evs generalizing m with
  | nil => simp at hlong
  | cons ev evs ih =>
      rw [List.flatMap_cons, ClientEvent.putBytes, List.append_assoc, List.length_cons, readPuts]
      by_cases hev : ev.Short
      · have hevs : ∀ e ∈ evs, Obtained (m.store ev) e :=
          fun e he => (h e (List.mem_cons_of_mem _ he)).store ev
        obtain ⟨e, he, hlong⟩ := hlong
        have htail : e ∈ evs := by
          rcases List.mem_cons.mp he with rfl | he
          · exact absurd hev hlong
          · exact he
        obtain ⟨places, rest, hrest⟩ := ih hevs
          (fun e he => hfit e (List.mem_cons_of_mem _ he)) ⟨e, htail, hlong⟩
        refine ⟨ev.place :: places, rest, ?_⟩
        refine run_bind_of (run_readWords (by rfl) _) ?_
        refine run_bind_of (run_readData big (h ev List.mem_cons_self)
          (hfit ev List.mem_cons_self) hev _) ?_
        exact run_bind_of hrest rfl
      · refine ⟨[], ev.sentData ++ evs.flatMap (·.putBytes big), ?_⟩
        refine run_bind_of (run_readWords (by rfl) _) ?_
        exact run_bind_of (run_readData_long big (h ev List.mem_cons_self) hev _) rfl

/-- A request written by `etNetTcpWritev`. -/
theorem converse_exchangev {α σ : Type} {serve : Server σ} {s s' : σ} {request reply : List Byte}
    {n : ℕ} {writeError readError : α} {next : List Byte → Routine α}
    (h : serve s request = some ((s', reply), [])) (hn : reply.length = n) :
    converse serve (exchangev request n writeError readError next) (.quiet s) =
      if writevFails request.length then some (writeError, ⟨s', [], reply⟩)
      else converse serve (next reply) (.quiet s') := by
  unfold exchangev
  split
  · rw [converse, converse_send h]
    rfl
  · exact converse_exchange_of_length h hn

/-- When the loop ends without a reply, so it does for the client. -/
theorem converse_exchangev_ended {α : Type} {serve : Server (Option (Memory τ))}
    {s : Option (Memory τ)} {request rest : List Byte} {n : ℕ} {writeError readError : α}
    {next : List Byte → Routine α} (h : serve s request = some ((none, []), rest)) (hn : 0 < n)
    {r : α × Conn (Option (Memory τ))}
    (hr : converse serve (exchangev request n writeError readError next) (.quiet s) = some r) :
    r.2.server = none := by
  have hlong : ¬ n ≤ ([] : List Byte).length := not_le.mpr hn
  unfold exchangev at hr
  split at hr
  · simp only [converse, Conn.quiet, List.nil_append, h] at hr
    rw [← Option.some.inj hr]
  · simp only [Routine.exchange, converse, Conn.quiet, List.nil_append, h, if_true,
      if_neg hlong] at hr
    cases hr

/-- A request to put an event is written if the length of its data is an `int`. -/
theorem writevFails_eventPutRequest (big : Bool) (att : Word) {ev : ClientEvent} (h : ev.Short) :
    writevFails (eventPutRequest big att ev).length = false := by
  have hdata : (ev.putBytes big).length < 52 + 2 ^ 31 := by
    rw [ClientEvent.putBytes, List.length_append, length_putWords, length_putHeader]
    exact Nat.add_lt_add_left h.length_sentData _
  apply writevFails_eq_false
  rw [eventPutRequest, List.length_append, length_putWords]
  simp only [List.length_cons, List.length_nil]
  omega

namespace Local

variable (L : Local τ) (big : Bool) (att : Word) (m : Memory τ)

/-- What putting an event should do. -/
def putEvent (ev : ClientEvent) : Memory τ × Word :=
  if ev.memsize < ev.length then (m, etError)
  else if ¬ ev.modified then (m, etOk)
  else if ev.lacksData then (m, etErrorRemote)
  else L.eventPut att ev.place (m.store ev)

/-- **An event is put with exactly the client's values.** -/
def PutsEvent (ev : ClientEvent) : Prop :=
  converse (L.commandLoop big) (etrEventPut big att ev) (.quiet (some m)) =
    some ((L.putEvent att m ev).2, .quiet (some (L.putEvent att m ev).1))

/-- The loop takes the event that is put. -/
theorem run_eventPut {m : Memory τ} {ev : ClientEvent} (h : Obtained m ev)
    (hfit : ev.length ≤ ev.memsize) (hshort : ev.Short) (rest : List Byte) :
    L.commandLoop big (some m) (eventPutRequest big att ev ++ rest) =
      some ((some (L.eventPut att ev.place (m.store ev)).1,
        putWords [(L.eventPut att ev.place (m.store ev)).2]), rest) := by
  have hrequest : eventPutRequest big att ev ++ rest =
      htonl Command.evPut.code ++ (putWords (att :: putHeader big ev) ++ (ev.sentData ++ rest)) := by
    rw [eventPutRequest, ClientEvent.putBytes, putWords_cons, putWords_cons, putWords_nil,
      List.append_nil, putWords_cons]
    simp only [List.append_assoc]
    rfl
  rw [hrequest, run_commandLoop]
  refine run_bind_of (run_readWords (by rfl) _) ?_
  exact run_bind_of (run_readData big h hfit hshort rest) rfl

/-- The loop ends at an event whose data are too long. -/
theorem run_eventPut_long {m : Memory τ} {ev : ClientEvent} (h : Obtained m ev)
    (hlong : ¬ ev.Short) :
    L.commandLoop big (some m) (eventPutRequest big att ev) = some ((none, []), ev.sentData) := by
  have hrequest : eventPutRequest big att ev =
      htonl Command.evPut.code ++ (putWords (att :: putHeader big ev) ++ ev.sentData) := by
    rw [eventPutRequest, ClientEvent.putBytes, putWords_cons, putWords_cons, putWords_nil,
      List.append_nil, putWords_cons]
    simp only [List.append_assoc]
    rfl
  rw [hrequest, run_commandLoop]
  refine run_bind_of (run_readWords (by rfl) _) ?_
  exact run_bind_of (run_readData_long big h hlong ev.sentData) rfl

/-- **Exactly when an event is put with the client's values**, if it is sent at all. -/
theorem putsEvent_iff {ev : ClientEvent} (hobt : Obtained m ev) :
    L.PutsEvent big att m ev ↔
      (ev.length ≤ ev.memsize → ev.modified → ¬ ev.lacksData → ev.Short) := by
  unfold PutsEvent putEvent etrEventPut
  by_cases hfit : ev.memsize < ev.length
  · simp [hfit, converse, BitVec.not_le.mpr hfit]
  have hle : ev.length ≤ ev.memsize := BitVec.not_lt.mp hfit
  by_cases hmod : ev.modified
  swap
  · simp [hfit, hmod, converse]
  by_cases hlacks : ev.lacksData
  · simp [hfit, hmod, hlacks, converse]
  rw [if_neg hfit, if_neg (not_not.mpr hmod), if_neg hlacks, if_neg hfit,
    if_neg (not_not.mpr hmod), if_neg hlacks]
  constructor
  · intro h _ _ _
    by_contra hlong
    have hended := converse_exchangev_ended (L.run_eventPut_long big att hobt hlong)
      (by decide) h
    cases hended
  · intro h
    have hshort := h hle hmod hlacks
    have hrun := L.run_eventPut big att hobt hle hshort []
    rw [List.append_nil] at hrun
    have hlen := writevFails_eventPutRequest big att hshort
    rw [converse_exchangev hrun (by rw [length_putWords]; rfl), hlen, if_neg (by decide)]
    simp [converse]

/-- What putting events should do. -/
def putEvents (evs : EventArray) : Memory τ × Word :=
  if ∃ ev ∈ evs.1, ev.memsize < ev.length then (m, etError)
  else if evs.sent = [] then (m, etOk)
  else if ∃ ev ∈ evs.sent, ev.lacksData then (m, etErrorRemote)
  else L.eventsPut att (evs.sent.map (·.place)) (m.storeAll evs.sent)

/-- **Events are put with exactly the client's values.** -/
def PutsEvents (evs : EventArray) : Prop :=
  converse (L.commandLoop big) (etrEventsPut big att evs) (.quiet (some m)) =
    some ((L.putEvents att m evs).2, .quiet (some (L.putEvents att m evs).1))

/-- The request of `etr_events_put` as the server reads it. -/
theorem eventsPutRequest_eq (evs : List ClientEvent) :
    eventsPutRequest big att evs = htonl Command.evsPut.code ++
      (putWords [att, BitVec.ofNat 32 evs.length,
        highInt (BitVec.ofNat 64 (evs.flatMap (·.putBytes big)).length),
        lowInt (BitVec.ofNat 64 (evs.flatMap (·.putBytes big)).length)] ++
      evs.flatMap (·.putBytes big)) := by
  rw [eventsPutRequest, putWords_cons, List.append_assoc]

/-- The loop takes the events that are put. -/
theorem run_eventsPut {m : Memory τ} {evs : List ClientEvent} (hcount : evs.length < 2 ^ 31)
    (h : ∀ ev ∈ evs, Obtained m ev) (hfit : ∀ ev ∈ evs, ev.length ≤ ev.memsize)
    (hshort : ∀ ev ∈ evs, ev.Short) (rest : List Byte) :
    L.commandLoop big (some m) (eventsPutRequest big att evs ++ rest) =
      some ((some (L.eventsPut att (evs.map (·.place)) (m.storeAll evs)).1,
        putWords [(L.eventsPut att (evs.map (·.place)) (m.storeAll evs)).2]), rest) := by
  have hint := congrArg Int.toNat (toInt_ofNat hcount)
  rw [Int.toNat_natCast] at hint
  have hputs := run_readPuts big evs h hfit hshort rest
  rw [eventsPutRequest_eq, List.append_assoc, List.append_assoc, run_commandLoop]
  refine run_bind_of (run_readWords (by rfl) _) ?_
  simp only [List.getD_cons_zero, List.getD_cons_succ, hint]
  exact run_bind_of hputs rfl

/-- The loop ends at an event whose data are too long. -/
theorem run_eventsPut_long {m : Memory τ} {evs : List ClientEvent}
    (hcount : evs.length < 2 ^ 31) (h : ∀ ev ∈ evs, Obtained m ev)
    (hfit : ∀ ev ∈ evs, ev.length ≤ ev.memsize) (hlong : ∃ ev ∈ evs, ¬ ev.Short) :
    ∃ rest, L.commandLoop big (some m) (eventsPutRequest big att evs) =
      some ((none, []), rest) := by
  have hint := congrArg Int.toNat (toInt_ofNat hcount)
  rw [Int.toNat_natCast] at hint
  obtain ⟨places, rest, hputs⟩ := run_readPuts_long big evs h hfit hlong
  refine ⟨rest, ?_⟩
  rw [eventsPutRequest_eq, run_commandLoop]
  refine run_bind_of (run_readWords (by rfl) _) ?_
  simp only [List.getD_cons_zero, List.getD_cons_succ, hint]
  exact run_bind_of hputs rfl

/-- **Exactly when events are put with the client's values**, if they are sent at all. -/
theorem putsEvents_iff {evs : EventArray} (hobt : ∀ ev ∈ evs.sent, Obtained m ev) :
    L.PutsEvents big att m evs ↔
      ((∀ ev ∈ evs.1, ev.length ≤ ev.memsize) → evs.sent ≠ [] →
        (∀ ev ∈ evs.sent, ¬ ev.lacksData) →
        (∀ ev ∈ evs.sent, ev.Short) ∧
          writevFails (eventsPutRequest big att evs.sent).length = false) := by
  unfold PutsEvents putEvents etrEventsPut
  by_cases hfit : ∃ ev ∈ evs.1, ev.memsize < ev.length
  · have hnot : ¬ ∀ ev ∈ evs.1, ev.length ≤ ev.memsize := by
      obtain ⟨ev, hev, hlt⟩ := hfit
      exact fun h => absurd (h ev hev) (BitVec.not_le.mpr hlt)
    rw [if_pos hfit, if_pos hfit]
    simp [converse, hnot]
  have hle : ∀ ev ∈ evs.1, ev.length ≤ ev.memsize := by
    intro ev hev
    by_contra hlt
    exact hfit ⟨ev, hev, BitVec.not_le.mp hlt⟩
  have hcount : evs.sent.length < 2 ^ 31 := (List.length_filter_le _ _).trans_lt evs.2
  have hsent : ∀ ev ∈ evs.sent, ev.length ≤ ev.memsize :=
    fun ev hev => hle ev (List.mem_of_mem_filter hev)
  rw [if_neg hfit, if_neg hfit]
  dsimp only
  by_cases hnil : evs.sent = []
  · simp [hnil, converse]
  rw [if_neg hnil, if_neg hnil, converse_choose, if_neg (by decide)]
  by_cases hlacks : ∃ ev ∈ evs.sent, ev.lacksData
  · have hnot : ¬ ∀ ev ∈ evs.sent, ¬ ev.lacksData := by
      obtain ⟨ev, hev, hl⟩ := hlacks
      exact fun h => h ev hev hl
    rw [if_pos hlacks, if_pos hlacks]
    simp only [converse, true_iff]
    exact fun _ _ h => absurd h hnot
  rw [if_neg hlacks, if_neg hlacks]
  constructor
  · intro h _ _ _
    have hshort : ∀ ev ∈ evs.sent, ev.Short := by
      by_contra hlong
      push Not at hlong
      obtain ⟨rest, hended⟩ := L.run_eventsPut_long big att hcount hobt hsent hlong
      cases converse_exchangev_ended hended (by decide) h
    refine ⟨hshort, ?_⟩
    have hrun := L.run_eventsPut big att hcount hobt hsent hshort []
    rw [List.append_nil] at hrun
    rw [converse_exchangev hrun (by rw [length_putWords]; rfl)] at h
    cases hfails : writevFails (eventsPutRequest big att evs.sent).length with
    | false => rfl
    | true =>
        -- the reply is left on the connection
        rw [hfails, if_pos rfl] at h
        have hdown := congrArg (fun r => r.map fun p => p.2.down) h
        simp [Conn.quiet, htonl] at hdown
  · intro h
    obtain ⟨hshort, hwrite⟩ := h hle hnil fun ev hev hl => hlacks ⟨ev, hev, hl⟩
    have hrun := L.run_eventsPut big att hcount hobt hsent hshort []
    rw [List.append_nil] at hrun
    rw [converse_exchangev hrun (by rw [length_putWords]; rfl), hwrite, if_neg (by decide)]
    simp [converse]

end Local

/-! ## Both directions -/

/-- The last answer of a call that is asked again is an answer of the call. -/
theorem askAgain_mem {α : Type} {wait : Word} {call : Memory τ → Memory τ × Except Failure α}
    {fuel : ℕ} {iterations : ℤ} {m : Memory τ} {r : Memory τ × Except Failure α}
    (h : askAgain wait call fuel iterations m = some r) : ∃ m', call m' = r := by
  induction fuel generalizing iterations m with
  | zero => exact nomatch h
  | succ fuel ih =>
      rcases hcall : call m with ⟨m', err | a⟩
      · simp only [askAgain, hcall] at h
        split at h
        · exact ih h
        · exact ⟨m, hcall.trans (Option.some.inj h)⟩
      · simp only [askAgain, hcall] at h
        exact ⟨m, hcall.trans (Option.some.inj h)⟩

/-- **An event that was got to be modified can be put**: what the server holds is what the
client got. -/
theorem Local.obtained_of_gotEvent (L : Local τ) {fuel : ℕ} {att mode place : Word}
    {deltatime : Option (ℤ × ℤ)} {m m' : Memory τ}
    (h : L.gotEvent fuel att mode deltatime m = some (m', .ok place))
    (hmode : getModify mode ≠ 0) :
    Obtained (L.afterGet att mode m' place) ((m'.event place).view place (getModify mode)) := by
  obtain ⟨m₀, hcall⟩ := askAgain_mem h
  have hmodify : (m'.event place).modify = getModify mode := by
    unfold getEvent at hcall
    split at hcall
    case h_1 m₁ p heq =>
      obtain ⟨rfl, hp⟩ := Prod.mk.inj hcall
      cases hp
      exact congrArg MemEvent.modify (m₁.update_event ..)
    case h_2 => exact nomatch (Prod.mk.inj hcall).2
  have hafter : L.afterGet att mode m' place = m' := by
    rw [afterGet, giveBack, netModify_mask, if_neg hmode]
  rw [hafter]
  exact ⟨by rw [MemEvent.view, hmodify], rfl⟩

/-- **Exactly when events survive the network.**  Getting: all lengths are `int`s, and so is
the size of the whole reply, read as a success.  Putting events that were got to be modified
or made: the lengths of the data sent and the size of the request are. -/
theorem events_survive_iff (L : Local τ) (big : Bool) (att : Word) (m : Memory τ) :
    (∀ fuel mode deltatime, L.GetsEvent big fuel att mode deltatime m ↔
      ∀ m' place, L.gotEvent fuel att mode deltatime m = some (m', .ok place) →
        (m'.event place).length.toNat < 2 ^ 31) ∧
    (∀ fuel mode num deltatime, L.GetsEvents big fuel att mode num deltatime m ↔
      ∀ m' places, L.gotEvents fuel att mode num deltatime m = some (m', .ok places) →
        (∀ place ∈ places.1, (m'.event place).length.toNat < 2 ^ 31) ∧
        writevFails (Local.eventsReply big m' places.1).length = false) ∧
    (∀ ev, Obtained m ev → (L.PutsEvent big att m ev ↔
      (ev.length ≤ ev.memsize → ev.modified → ¬ ev.lacksData → ev.Short))) ∧
    ∀ evs : EventArray, (∀ ev ∈ evs.sent, Obtained m ev) → (L.PutsEvents big att m evs ↔
      ((∀ ev ∈ evs.1, ev.length ≤ ev.memsize) → evs.sent ≠ [] →
        (∀ ev ∈ evs.sent, ¬ ev.lacksData) →
        (∀ ev ∈ evs.sent, ev.Short) ∧
          writevFails (eventsPutRequest big att evs.sent).length = false)) :=
  ⟨fun _ _ _ => L.getsEvent_iff .., fun _ _ _ _ => L.getsEvents_iff ..,
    fun _ hobt => L.putsEvent_iff big att m hobt, fun _ hobt => L.putsEvents_iff big att m hobt⟩

/-- A new event of 3 bytes in memory of 8. -/
def newEvent : ClientEvent := newClientEvent 0 3 8 (some fun i => BitVec.ofNat 8 (i + 7))

/-- The server's memory when it was made. -/
def Memory.madeNew : Memory (Word × Word) :=
  ⟨(0, 0), fun _ => { MemEvent.blank with memsize := 8, modify := etModify }⟩

/-- A system with one event, at place 0. -/
def Local.giving : Local (Word × Word) :=
  { Local.noting with eventGet := fun _ _ m => (m, .ok 0) }

/-- The new event is put with its three bytes; and when it is got again to be modified, it can be put
again. -/
theorem events_survive_example :
    Local.noting.PutsEvent false 5 .madeNew newEvent ∧
    ((Local.noting.putEvent 5 .madeNew newEvent).1.event 0).data = [7, 8, 9] ∧
    ∃ m ev, Local.giving.gotEvent 1 5 etModify none .madeNew = some (m, .ok 0) ∧
      ev = (m.event 0).view 0 (getModify etModify) ∧
      Local.giving.PutsEvent false 5 (Local.giving.afterGet 5 etModify m 0) ev := by
  have hobt : Obtained Memory.madeNew newEvent := ⟨by decide, by decide⟩
  have hput := (events_survive_iff Local.noting false 5 Memory.madeNew).2.2.1 newEvent hobt
  have hgot : Local.giving.gotEvent 1 5 etModify none .madeNew =
      some (Memory.madeNew.setModify (getModify etModify) 0, .ok 0) := rfl
  have hagain := (events_survive_iff Local.giving false 5 _).2.2.1 _
    (Local.giving.obtained_of_gotEvent hgot (by decide))
  exact ⟨hput.mpr fun _ _ _ _ => by decide, by decide, _, _, hgot, rfl,
    hagain.mpr fun _ _ _ _ => by decide⟩

/-- Its memory when the event has 2 gigabytes of data. -/
def Memory.long : Memory (Word × Word) :=
  ⟨(0, 0), fun _ => { MemEvent.blank with length := 0x80000000, memsize := 0x80000000 }⟩

/-- The event with 2 gigabytes of data is not got. -/
theorem long_event_not_got : ¬ Local.giving.GetsEvent false 1 0 0 none .long := by
  rw [Local.getsEvent_iff]
  intro h
  exact absurd (h (Memory.long.setModify 0 0) 0 rfl) (by decide)

end EventTransfer
