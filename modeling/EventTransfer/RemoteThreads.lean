import EventTransfer.RemoteTransfer
import EventTransfer.RemoteHistogram

/-!
# Threads that share a connection

All threads of a client that use one `et_id` share its socket.  The routines of the client
hold the tcp lock of the `et_id` from before the request is written until the whole reply is
read, with two exceptions (`et_remote.c`, `et_data.c`): `et_data_get` and
`et_data_gethistogram` do not take the lock, and `etr_kill` keeps it when its write fails.

* `Operation` are the remote operations, `prog` their routines.
* `prog_disciplined` — all others write and read under the lock only, and read all of the
  reply before they give it back.
* `replies_stay_paired` — in every run without the exceptions each operation reads bytes of
  its own reply only, and when it returns it does not have the lock and has left nothing to
  read.
-/

namespace EventTransfer

open Wire Exchange StepRun

variable {τ : Type}

/-! ## Routines -/

/-- `etr_close` and `etr_forcedclose`.  If the write fails the system has already closed the
connection. -/
def etrClosing (c : Command) : Routine Word :=
  .lock <| .send (htonl c.code) fun _ => .close <| .unlock <| .ret etOk

/-- `etr_close`. -/
def etrClose : Routine Word := etrClosing .close

/-- `etr_forcedclose`. -/
def etrForcedclose : Routine Word := etrClosing .fclose

/-- `etr_kill`. -/
def etrKill : Routine Word :=
  .lock <| .send (htonl Command.kill.code) fun ok =>
    if ok then .close <| .unlock <| .ret etOk else .ret etErrorWrite

/-- `etr_alive`. -/
def etrAlive : Routine Word :=
  .exchange (htonl Command.alive.code) 4 0 0 fun alive => .unlock <| .ret (ntohl alive)

/-- `etr_wait_for_alive`. -/
def etrWaitForAlive : Routine Word :=
  .exchange (htonl Command.wait.code) 4 etErrorWrite etErrorRead fun _ => .unlock <| .ret etOk

/-- `etr_wakeup_attachment` and `etr_wakeup_all`: there is no reply. -/
def etrWakeup (c : Command) (id : Word) : Routine Word :=
  .lock <| .send (putWords [c.code, id]) fun ok =>
    .unlock <| .ret (if ok then etOk else etErrorWrite)

/-- `etr_wakeup_attachment`. -/
def etrWakeupAttachment (att : Word) : Routine Word := etrWakeup .wakeAtt att

/-- `etr_wakeup_all`. -/
def etrWakeupAll (stat : Word) : Routine Word := etrWakeup .wakeAll stat

/-- `et_data_get`, up to the bytes of the snapshot. -/
def etDataGet : Routine (Except Word (List Byte)) :=
  .send (htonl Command.sysData.code) fun ok => if !ok then .ret (.error etErrorWrite) else
  .recv 4 fun
    | none => .ret (.error etErrorRead)
    | some piece =>
        let err := ntohl piece
        if err ≠ etOk then .ret (.error err) else
        .recv 4 fun
          | none => .ret (.error etErrorRead)
          | some piece =>
              let bufsize := ntohl piece
              .choose fun ok => if !ok then .ret (.error etError) else
              recvData (bufsize.zeroExtend 64) fun
                | none => .ret (.error etErrorRead)
                | some buffer => .ret (.ok buffer)

/-! ## Operations -/

/-- **The remote operations**, with their arguments.  `fuel` bounds how often an operation
that sleeps asks again, `esize` is the event size of the system. -/
inductive Operation
  | call (junk : Word) (c : Call)
  | eventGet (fuel : ℕ) (att mode : Word) (deltatime : Option (ℤ × ℤ))
  | eventsGet (fuel : ℕ) (att mode num : Word) (deltatime : Option (ℤ × ℤ))
  | eventNew (fuel : ℕ) (esize : BitVec 64) (att mode : Word) (deltatime : Option (ℤ × ℤ))
      (size : BitVec 64)
  | eventsNew (fuel : ℕ) (esize : BitVec 64) (att mode : Word) (deltatime : Option (ℤ × ℤ))
      (size : BitVec 64) (num : Word)
  | eventsNewGroup (fuel : ℕ) (esize : BitVec 64) (att mode : Word)
      (deltatime : Option (ℤ × ℤ)) (size : BitVec 64) (num group : Word)
  | eventPut (att : Word) (ev : ClientEvent)
  | eventsPut (att : Word) (evs : EventArray)
  | eventDump (att : Word) (ev : ClientEvent)
  | eventsDump (att : Word) (evs : EventArray)
  | alive
  | waitForAlive
  | wakeupAttachment (att : Word)
  | wakeupAll (stat : Word)
  | close
  | forcedclose
  | kill
  | dataGet
  | dataGethistogram (nevents : ℕ) (hist : CallerArray) (size : ℤ)

/-- **What a thread does** for an operation.  What is returned does not matter here. -/
def prog (big : Bool) : Operation → Routine Unit
  | .call junk c => (etr junk c).map fun _ => ()
  | .eventGet fuel att mode deltatime => (etrEventGet big fuel att mode deltatime).map fun _ => ()
  | .eventsGet fuel att mode num deltatime =>
      (etrEventsGet big fuel att mode num deltatime).map fun _ => ()
  | .eventNew fuel esize att mode deltatime size =>
      (etrEventNew fuel esize att mode deltatime size).map fun _ => ()
  | .eventsNew fuel esize att mode deltatime size num =>
      (etrEventsNew fuel esize att mode deltatime size num).map fun _ => ()
  | .eventsNewGroup fuel esize att mode deltatime size num group =>
      (etrEventsNewGroup fuel esize att mode deltatime size num group).map fun _ => ()
  | .eventPut att ev => (etrEventPut big att ev).map fun _ => ()
  | .eventsPut att evs => (etrEventsPut big att evs).map fun _ => ()
  | .eventDump att ev => (etrEventDump att ev).map fun _ => ()
  | .eventsDump att evs => (etrEventsDump att evs).map fun _ => ()
  | .alive => etrAlive.map fun _ => ()
  | .waitForAlive => etrWaitForAlive.map fun _ => ()
  | .wakeupAttachment att => (etrWakeupAttachment att).map fun _ => ()
  | .wakeupAll stat => (etrWakeupAll stat).map fun _ => ()
  | .close => etrClose.map fun _ => ()
  | .forcedclose => etrForcedclose.map fun _ => ()
  | .kill => etrKill.map fun _ => ()
  | .dataGet => etDataGet.map fun _ => ()
  | .dataGethistogram nevents hist size =>
      (etrDataGethistogram big nevents hist size).map fun _ => ()

/-- The operation takes the lock, and it does not take a request for failed that was written. -/
def Operation.Locked (big : Bool) : Operation → Prop
  | .dataGet => False
  | .dataGethistogram .. => False
  | .eventsPut att evs =>
      (∀ ev ∈ evs.1, ev.length ≤ ev.memsize) → (∀ ev ∈ evs.sent, ¬ ev.lacksData) →
        writevFails (eventsPutRequest big att evs.sent).length = false
  | _ => True

instance (big : Bool) (o : Operation) : Decidable (o.Locked big) := by
  unfold Operation.Locked
  split <;> infer_instance

/-- The operation gives the lock back when its write fails. -/
def Operation.writeFails : Operation → Bool
  | .kill => false
  | _ => true

/-- **The server can answer the operation**: its loop is running, and no length is too large
for an `int` or for the array it is read into. -/
def Operation.Servable (L : Local τ) (o : Operation) (s : Option (Memory τ)) : Prop :=
  ∃ m, s = some m ∧
    match o with
    | .call _ (.existing name) => name.bytes.length < etStatnameLength
    | .eventGet _ att mode deltatime =>
        ∀ m' place, L.getEvent att mode (netTiming mode deltatime).1 m = (m', .ok place) →
          (m'.event place).length.toNat < 2 ^ 31
    | .eventsGet _ att mode num deltatime =>
        ∀ m' places, L.getEvents att mode num (netTiming mode deltatime).1 m = (m', .ok places) →
          ∀ place ∈ places.1, (m'.event place).length.toNat < 2 ^ 31
    | .eventsNew _ _ att mode deltatime size num =>
        ∀ m' places, L.eventsNew att (netTiming mode deltatime).1 size num m = (m', .ok places) →
          places.1.length < 2 ^ 29
    | .eventsNewGroup _ _ att mode deltatime size num group =>
        ∀ m' places, L.eventsNewGroup att (netTiming mode deltatime).1 size num group m =
          (m', .ok places) → places.1.length < 2 ^ 29
    | .eventPut _ ev => Obtained m ev ∧ ev.Short
    | .eventsPut _ evs => ∀ ev ∈ evs.sent, Obtained m ev ∧ ev.Short
    | _ => True

/-! ## Calls -/

/-- `Q` holds of every reply to the request, which the server takes whenever it can answer the
operation. -/
def Operation.Answered (L : Local τ) (big : Bool) (o : Operation) (request : List Byte)
    (Q : List Byte → Prop) : Prop :=
  IsRequest (L.commandLoop big) (o.Servable L) request ∧
    ∀ w, Answers (L.commandLoop big) (o.Servable L) request w → Q w

section

variable (L : Local τ) (big : Bool)

/-- A call is answered, also if its arguments are not what was asked for. -/
theorem answered_call (junk : Word) (c : Call) :
    (Operation.call junk c).Answered L big (c.request junk) fun w => ∃ r : Result c, w = c.reply r := by
  refine isRequest_of (List.cons_ne_nil _ _) ?_
  rintro _ rest ⟨m, rfl, hs⟩
  have hsent : c.wellSent junk → ∃ t reply, (∃ r : Result c, reply = c.reply r) ∧
      L.commandLoop big (some m) (c.request junk ++ rest) = some ((t, reply), rest) := by
    intro h
    exact ⟨_, _, ⟨_, rfl⟩, run_commandLoop_call L big m h rest⟩
  cases c with
  | setposition stat position pposition =>
      exact ⟨_, _, ⟨⟨_, ()⟩, rfl⟩, run_commandLoop_setposition L big m junk stat position pposition
        rest⟩
  | existing name => exact hsent hs
  | _ => exact hsent trivial

variable {L big} {serve : Server (Option (Memory τ))} {Can : Option (Memory τ) → Prop} {fails : Bool}

/-- An array of words is a reply of a fixed length. -/
theorem disciplined_etrWords {α : Type} {request : List Byte} {n : ℕ}
    {result : Word → List Word → Option α} (hreq : IsRequest serve Can request) (hn : 0 < n)
    (hlen : ∀ w, Answers serve Can request w → w.length = 4 * n) :
    Disciplined serve Can fails .free (etrWords request n result) :=
  disciplined_exchange_of_length hreq (by omega) hlen fun _ => trivial

/-- What follows the status and the length in a reply with a name: the name, or nothing. -/
theorem nameReply_cases {n : StationName} {stat : Word} {r : Result (.stationName n stat)}
    {piece w : List Byte} (hpiece : piece.length = 8)
    (h : piece ++ w = (Call.stationName n stat).reply r) :
    (∃ s : Str n.size, getWords 2 piece = [etOk, s.1.size] ∧ w = s.1.put) ∨
      ∃ err, err ≠ etOk ∧ getWords 2 piece = [err, 0] ∧ w = [] := by
  by_cases herr : r.err = etOk
  · have hif : (Call.stationName n stat).reply r =
        putWords [r.err, r.out.1.size] ++ r.out.1.put := if_pos herr
    obtain ⟨rfl, rfl⟩ := List.append_inj (h.trans hif) hpiece
    exact .inl ⟨r.out, herr ▸ getWords_putWords rfl, rfl⟩
  · have hif : (Call.stationName n stat).reply r = putWords [r.err, 0] ++ [] :=
      (if_neg herr).trans (List.append_nil _).symm
    obtain ⟨rfl, rfl⟩ := List.append_inj (h.trans hif) hpiece
    exact .inr ⟨r.err, herr, getWords_putWords rfl, rfl⟩

/-- The name of a library, a function or a class is read to its end. -/
theorem disciplined_etrStationName {n : StationName} {stat : Word}
    (hreq : IsRequest serve Can ((Call.stationName n stat).request 0))
    (hans : ∀ w, Answers serve Can ((Call.stationName n stat).request 0) w →
      ∃ r, w = (Call.stationName n stat).reply r) :
    Disciplined serve Can fails .free (etrStationName n stat) := by
  have hsize : n.size < 2 ^ 32 := by cases n <;> decide
  refine disciplined_exchange hreq (by decide) ?_ ?_
  · intro w hw
    obtain ⟨r, rfl⟩ := hans w hw
    show 8 ≤ (if r.err = etOk then putWords [r.err, r.out.1.size] ++ r.out.1.put
      else putWords [r.err, 0]).length
    split
    · rw [List.length_append]
      exact Nat.le_add_right 8 _
    · exact le_refl 8
  · intro piece w hpiece hw
    have hsplit : ∀ v, Answers serve Can ((Call.stationName n stat).request 0) (piece ++ v) → _ :=
      fun v hv => nameReply_cases hpiece (hans _ hv).choose_spec
    rcases hsplit w hw with ⟨s, hwords, -⟩ | ⟨err, herr, hwords, -⟩
    · -- all replies that start with the piece have a name of the same length
      have hname : ∀ v, Answers serve Can ((Call.stationName n stat).request 0) (piece ++ v) →
          ∃ s' : Str n.size, v = s'.1.put ∧ s'.1.bytes.length = s.1.bytes.length := by
        intro v hv
        rcases hsplit v hv with ⟨s', hwords', hv'⟩ | ⟨err, herr, hwords', -⟩
        · have hsame : s.1.size = s'.1.size := by simpa using hwords.symm.trans hwords'
          have hlen := congrArg BitVec.toNat hsame
          rw [Str.toNat_size hsize, Str.toNat_size hsize] at hlen
          exact ⟨s', hv', by omega⟩
        · exact absurd (List.cons.inj (hwords.symm.trans hwords')).1.symm herr
      dsimp only
      rw [hwords]
      simp only [List.getD_cons_zero, List.getD_cons_succ, if_true, Str.toNat_size hsize]
      refine disciplined_recv (Nat.succ_pos _) ?_ ?_ trivial
      · intro v hv
        obtain ⟨s', rfl, hlen⟩ := hname v hv
        rw [CStr.length_put, hlen]
      · intro name v hlen hv
        obtain ⟨s', hv', hlen'⟩ := hname _ hv
        rw [← List.append_nil s'.1.put] at hv'
        obtain ⟨rfl, rfl⟩ := List.append_inj hv' (by rw [hlen, CStr.length_put, hlen'])
        have hread := run_readStr s' []
        rw [List.append_nil, hlen'] at hread
        dsimp only
        rw [hread]
        refine ⟨?_, trivial⟩
        intro u hu
        obtain ⟨s'', hu', hlen''⟩ := hname _ hu
        have hlength := congrArg List.length hu'
        rw [List.length_append, CStr.length_put, CStr.length_put] at hlength
        exact List.length_eq_zero_iff.mp (by omega)
    · dsimp only
      rw [hwords]
      simp only [List.getD_cons_zero]
      rw [if_neg herr]
      refine ⟨?_, trivial⟩
      intro v hv
      rcases hsplit v hv with ⟨s, hwords', -⟩ | ⟨-, -, -, hv'⟩
      · exact absurd (List.cons.inj (hwords.symm.trans hwords')).1 herr
      · exact hv'

/-- **The routine of a call** reads all of the reply. -/
theorem disciplined_etr (junk : Word) (c : Call) :
    Disciplined (L.commandLoop big) ((Operation.call junk c).Servable L) fails .free
      (etr junk c) := by
  obtain ⟨hreq, hans⟩ := answered_call L big junk c
  cases c with
  | stationName n stat => exact disciplined_etrStationName hreq hans
  | _ =>
      simp only [etr, etrStationGetstuff, etrStationSetstuff, etrAttachGetstuff,
        etrSystemGetstuff, etrStationCreateAt, etrStationRemove, etrStationAttach,
        etrStationDetach, etrStationSetposition, etrStationGetposition, etrStationIsattached,
        etrStationExists, etrStationSetselectwords, etrStationGetselectwords, etrStatus]
      refine disciplined_etrWords hreq (by decide) ?_
      intro w hw
      obtain ⟨r, rfl⟩ := hans w hw
      exact length_putWords _

/-! ## Events -/

/-- Data whose length is known from what was read before. -/
theorem disciplined_recvData {α : Type} {R : List Byte → Prop} {len : BitVec 64}
    {next : Option (List Byte) → Routine α} (hshort : len.toNat < 2 ^ 31)
    (hlen : ∀ w, R w → len.toNat ≤ w.length)
    (hzero : len.toNat = 0 → Disciplined serve Can fails (.await R) (next (some [])))
    (hpiece : 0 < len.toNat → ∀ piece w, piece.length = len.toNat → R (piece ++ w) →
      Disciplined serve Can fails (.await fun w => R (piece ++ w)) (next (some piece)))
    (hnone : Disciplined serve Can fails .broken (next none)) :
    Disciplined serve Can fails (.await R) (recvData len next) := by
  rw [recvData, intLen_of_lt hshort]
  simp only [if_pos hshort]
  exact ⟨hzero, hlen, hpiece, hnone⟩

/-- **Asking again is disciplined** when an error is all of the reply and what follows the
first words of another reply is read by `finish`. -/
theorem disciplined_etrRetry {α : Type} {request : List Byte} {n : ℕ} {wait : Word}
    {failed : Word → Bool} {finish : List Word → Routine (Except Word α)}
    (Rest : List Word → List Byte → Prop) (hreq : IsRequest serve Can request) (hn : 0 < n)
    (hans : ∀ w, Answers serve Can request w →
      (∃ (err : Failure) (pad : List Word), pad.length + 1 = n ∧ w = putWords (err.1 :: pad)) ∨
      ∃ first rest, first.length = n ∧ first.getD 0 0 ≠ etErrorTimeout ∧
        failed (first.getD 0 0) = false ∧ Rest first rest ∧ w = putWords first ++ rest)
    (hfailed : ∀ err : Failure, failed err.1 = true)
    (hfinish : ∀ first R, (∃ w, R w) → (∀ w, R w → Rest first w) →
      Disciplined serve Can fails (.await R) (finish first))
    (fuel : ℕ) (iterations : ℤ) :
    Disciplined serve Can fails .free (etrRetry request n wait failed finish fuel iterations) := by
  induction fuel generalizing iterations with
  | zero => trivial
  | succ fuel ih =>
      refine disciplined_exchange hreq (by omega) ?_ ?_
      · intro w hw
        rcases hans w hw with ⟨err, pad, hpad, rfl⟩ | ⟨first, rest, hfirst, -, -, -, rfl⟩
        · rw [length_putWords, List.length_cons, hpad]
        · rw [List.length_append, length_putWords, hfirst]
          exact Nat.le_add_right _ _
      · intro piece w hpiece hw
        -- what can follow the words that were read
        have hsplit : ∀ v, Answers serve Can request (piece ++ v) →
            ((∃ err : Failure, (getWords n piece).getD 0 0 = err.1) ∧ v = []) ∨
            ((getWords n piece).getD 0 0 ≠ etErrorTimeout ∧
              failed ((getWords n piece).getD 0 0) = false ∧ Rest (getWords n piece) v) := by
          intro v hv
          rcases hans _ hv with ⟨err, pad, hpad, he⟩ | ⟨first, rest, hfirst, ht, hf, hr, he⟩
          · rw [← List.append_nil (putWords _)] at he
            obtain ⟨rfl, rfl⟩ := List.append_inj he (by rw [hpiece, length_putWords,
              List.length_cons, hpad])
            rw [getWords_putWords (by rw [List.length_cons, hpad])]
            exact .inl ⟨⟨err, rfl⟩, rfl⟩
          · obtain ⟨rfl, rfl⟩ := List.append_inj he (by rw [hpiece, length_putWords, hfirst])
            rw [getWords_putWords hfirst]
            exact .inr ⟨ht, hf, hr⟩
        have hempty : (getWords n piece).getD 0 0 = etErrorTimeout ∨
            failed ((getWords n piece).getD 0 0) = true →
            ∀ v, Answers serve Can request (piece ++ v) → v = [] := by
          intro h v hv
          rcases hsplit v hv with ⟨-, hnil⟩ | ⟨ht, hf, -⟩
          · exact hnil
          · rcases h with h | h
            · exact absurd h ht
            · exact absurd (hf.symm.trans h) (by decide)
        dsimp only
        split
        case isTrue htimeout =>
          refine ⟨hempty (.inl htimeout), ?_⟩
          split
          · exact ih _
          · trivial
        case isFalse htimeout =>
          split
          case isTrue hfail => exact ⟨hempty (.inr hfail), trivial⟩
          case isFalse hfail =>
            refine hfinish _ _ ⟨w, hw⟩ fun v hv => ?_
            rcases hsplit v hv with ⟨⟨err, herr⟩, -⟩ | ⟨-, -, hrest⟩
            · exact absurd (herr ▸ hfailed err) hfail
            · exact hrest

/-- Under the lock nothing fails that does not go over the network. -/
theorem disciplined_choose {α : Type} {R : List Byte → Prop} {next : Bool → Routine α}
    (h : Disciplined serve Can fails (.await R) (next true)) :
    Disciplined serve Can fails (.await R) (.choose next) := h

/-- What is sent of `n` events whose lengths are no larger than an `int`. -/
def EventBytes (big : Bool) (n : ℕ) (w : List Byte) : Prop :=
  ∃ es : List (Word × MemEvent), es.length = n ∧ (∀ p ∈ es, p.2.length.toNat < 2 ^ 31) ∧
    w = es.flatMap fun p => p.2.getBytes big p.1

theorem EventBytes.eq_nil {w : List Byte} (h : EventBytes big 0 w) : w = [] := by
  obtain ⟨es, hes, -, rfl⟩ := h
  rw [List.length_eq_zero_iff.mp hes]
  rfl

/-- The first of several events: its header, its data, and the other events. -/
theorem EventBytes.cons {n : ℕ} {w : List Byte} (h : EventBytes big (n + 1) w) :
    ∃ (place : Word) (e : MemEvent) (rest : List Byte), e.length.toNat < 2 ^ 31 ∧
      EventBytes big n rest ∧ w = putWords (getHeader big place e) ++ (e.data ++ rest) := by
  obtain ⟨es, hes, hshort, rfl⟩ := h
  obtain ⟨p, ps, rfl⟩ := List.exists_of_length_succ es hes
  refine ⟨p.1, p.2, _, hshort p List.mem_cons_self, ⟨ps, ?_, ?_, rfl⟩, ?_⟩
  · exact Nat.succ_inj.mp hes
  · exact fun q hq => hshort q (List.mem_cons_of_mem p hq)
  · rw [List.flatMap_cons, MemEvent.getBytes, List.append_assoc]

/-- The header has the length of the data. -/
theorem uint64_getHeader (place : Word) (e : MemEvent) :
    uint64 ((getHeader big place e).getD 0 0) ((getHeader big place e).getD 1 0) = e.length :=
  uint64_highInt_lowInt e.length

/-- **An event is read**, header and data, and the others are left. -/
theorem disciplined_recvEvent {α : Type} {R : List Byte → Prop} {n : ℕ} {modify : Word}
    {noEvent noData readError : Routine α} {next : ClientEvent → Routine α}
    (hR : ∀ w, R w → EventBytes big (n + 1) w)
    (hread : Disciplined serve Can fails .broken readError)
    (hnext : ∀ ev R', (∀ w, R' w → EventBytes big n w) →
      Disciplined serve Can fails (.await R') (next ev)) :
    Disciplined serve Can fails (.await R) (recvEvent big modify noEvent noData readError next) := by
  refine disciplined_recv (by decide) ?_ ?_ hread
  · intro w hw
    obtain ⟨place, e, rest, -, -, rfl⟩ := (hR w hw).cons
    rw [List.length_append, length_putWords, length_getHeader]
    exact Nat.le_add_right _ _
  · intro piece w hpiece hw
    -- the header says how much data follows
    have hsplit : ∀ v, R (piece ++ v) → ∃ data rest, v = data ++ rest ∧ EventBytes big n rest ∧
        (uint64 ((getWords 15 piece).getD 0 0) ((getWords 15 piece).getD 1 0)).toNat = data.length ∧
        data.length < 2 ^ 31 := by
      intro v hv
      obtain ⟨place, e, rest, hshort, hrest, he⟩ := (hR _ hv).cons
      obtain ⟨rfl, rfl⟩ := List.append_inj he (by rw [hpiece, length_putWords, length_getHeader])
      refine ⟨e.data, rest, rfl, hrest, ?_, by rwa [MemEvent.length_data]⟩
      rw [getWords_putWords (length_getHeader big place e), MemEvent.length_data,
        uint64_getHeader]
    generalize hlen : uint64 ((getWords 15 piece).getD 0 0) ((getWords 15 piece).getD 1 0) = len
      at hsplit
    have hshort : len.toNat < 2 ^ 31 := by
      obtain ⟨data, rest, -, -, hdata, hlt⟩ := hsplit w hw
      rwa [hdata]
    have hzero : len.toNat = 0 → ∀ v, R (piece ++ v) → EventBytes big n v := by
      intro hz v hv
      obtain ⟨data, rest, rfl, hrest, hdata, -⟩ := hsplit v hv
      rw [hz] at hdata
      rwa [List.length_eq_zero_iff.mp hdata.symm, List.nil_append]
    dsimp only
    rw [hlen]
    refine disciplined_choose ?_
    rw [if_neg (by decide)]
    refine disciplined_choose ?_
    rw [if_neg (by decide)]
    by_cases hz : len = 0
    · rw [if_pos hz]
      exact hnext _ _ (hzero (by rw [hz]; rfl))
    · rw [if_neg hz]
      refine disciplined_recvData hshort ?_ ?_ ?_ (by exact hread)
      · intro v hv
        obtain ⟨data, rest, rfl, -, hdata, -⟩ := hsplit v hv
        rw [List.length_append, hdata]
        exact Nat.le_add_right _ _
      · intro hz'
        exact absurd (BitVec.eq_of_toNat_eq hz') hz
      · intro _ data v hdata hv
        refine hnext _ _ fun u hu => ?_
        obtain ⟨data', rest, he, hrest, hdata', -⟩ := hsplit _ hu
        obtain ⟨rfl, rfl⟩ := List.append_inj he (hdata.trans hdata')
        exact hrest

/-- Several events are read. -/
theorem disciplined_recvEvents {modify : Word} {n : ℕ} {evs : List ClientEvent}
    {R : List Byte → Prop} (hR : ∀ w, R w → EventBytes big n w) :
    Disciplined serve Can fails (.await R) (recvEvents big modify n evs) := by
  induction n generalizing evs R with
  | zero => exact ⟨fun w hw => (hR w hw).eq_nil, trivial⟩
  | succ n ih => exact disciplined_recvEvent hR trivial fun ev R' hR' => ih hR'

/-- Memory for new events is got without the lock. -/
theorem disciplined_makeEvents {mode : Word} {size eventsize : BitVec 64} {places : List Word}
    {evs : List ClientEvent} :
    Disciplined serve Can fails .free (makeEvents mode size eventsize places evs) := by
  induction places generalizing evs with
  | nil => trivial
  | cons place places ih =>
      rw [makeEvents]
      intro b
      cases b with
      | false => trivial
      | true =>
          dsimp only
          rw [if_neg (by decide)]
          split
          · intro b
            cases b with
            | false => trivial
            | true => exact ih
          · exact ih

/-- The places of new events are read, under the lock. -/
theorem disciplined_recvPlaces {esize size : BitVec 64} {mode : Word} {first : List Word}
    {R : List Byte → Prop} (hsome : ∃ w, R w)
    (hR : ∀ w, R w → w.length = 4 * (first.getD 0 0).toNat ∧ (first.getD 0 0).toNat < 2 ^ 29) :
    Disciplined serve Can fails (.await R) (recvPlaces esize mode size first) := by
  obtain ⟨w₀, hw₀⟩ := hsome
  have hsmall := (hR w₀ hw₀).2
  have htoNat : (BitVec.ofNat 64 (4 * (first.getD 0 0).toNat)).toNat =
      4 * (first.getD 0 0).toNat := by
    rw [BitVec.toNat_ofNat]
    omega
  refine disciplined_choose ?_
  rw [if_neg (by decide)]
  refine disciplined_recvData (by omega) ?_ ?_ ?_ trivial
  · intro w hw
    rw [htoNat, (hR w hw).1]
  · intro hz
    refine ⟨fun w hw => ?_, disciplined_makeEvents⟩
    exact List.length_eq_zero_iff.mp (by rw [(hR w hw).1, ← htoNat, hz])
  · intro _ piece v hpiece _
    refine ⟨fun u hu => ?_, disciplined_makeEvents⟩
    have hlen := (hR _ hu).1
    rw [List.length_append, hpiece, htoNat] at hlen
    exact List.length_eq_zero_iff.mp (by omega)

/-! ## What the server answers -/

theorem answered_eventGet (L : Local τ) (big : Bool) (fuel : ℕ) (att mode : Word) (deltatime : Option (ℤ × ℤ)) :
    (Operation.eventGet fuel att mode deltatime).Answered L big
      (eventGetRequest att mode (netTiming mode deltatime).1) fun w =>
        (∃ err : Failure, w = putWords [err.1]) ∨
        ∃ rest, EventBytes big 1 rest ∧ w = putWords [etOk] ++ rest := by
  refine isRequest_of (List.cons_ne_nil _ _) ?_
  rintro _ rest ⟨m, rfl, hs⟩
  have hrun := L.run_eventGet big att mode (netTiming mode deltatime).1 m rest
  rcases hget : L.getEvent att mode (netTiming mode deltatime).1 m with ⟨m', err | place⟩
  · rw [hget] at hrun
    exact ⟨_, _, .inl ⟨err, rfl⟩, hrun⟩
  · rw [hget] at hrun
    dsimp only at hrun
    rw [writev_eq] at hrun
    refine ⟨_, _, .inr ⟨_, ⟨[(place, m'.event place)], rfl, ?_, ?_⟩, rfl⟩, hrun⟩
    · intro p hp
      rw [List.mem_singleton.mp hp]
      exact hs m' place hget
    · rw [List.flatMap_singleton]

theorem answered_eventsGet (L : Local τ) (big : Bool) (fuel : ℕ) (att mode num : Word) (deltatime : Option (ℤ × ℤ)) :
    (Operation.eventsGet fuel att mode num deltatime).Answered L big
      (eventsGetRequest att mode num (netTiming mode deltatime).1) fun w =>
        (∃ err : Failure, w = putWords [err.1]) ∨
        ∃ (n : ℕ) (size : List Word) (rest : List Byte), n < 2 ^ 31 ∧ size.length = 2 ∧
          EventBytes big n rest ∧ w = putWords [BitVec.ofNat 32 n] ++ (putWords size ++ rest) := by
  refine isRequest_of (List.cons_ne_nil _ _) ?_
  rintro _ rest ⟨m, rfl, hs⟩
  have hrun := L.run_eventsGet big att mode num (netTiming mode deltatime).1 m rest
  rcases hget : L.getEvents att mode num (netTiming mode deltatime).1 m with ⟨m', err | places⟩
  · rw [hget] at hrun
    exact ⟨_, _, .inl ⟨err, rfl⟩, hrun⟩
  · rw [hget] at hrun
    dsimp only at hrun
    rw [writev_eq] at hrun
    refine ⟨_, _, .inr ⟨places.1.length, [_, _], Local.eventsBytes big m' places.1, places.2, rfl,
      ⟨places.1.map fun place => (place, m'.event place), ?_, ?_, ?_⟩, rfl⟩, hrun⟩
    · exact List.length_map _
    · intro p hp
      obtain ⟨place, hplace, rfl⟩ := List.mem_map.mp hp
      exact hs m' places hget place hplace
    · rw [List.flatMap_map]
      rfl

theorem answered_eventNew (L : Local τ) (big : Bool) (fuel : ℕ) (esize : BitVec 64) (att mode : Word)
    (deltatime : Option (ℤ × ℤ)) (size : BitVec 64) :
    (Operation.eventNew fuel esize att mode deltatime size).Answered L big
      (putWords [Command.evNew.code, att, (netTiming mode deltatime).1.wait, highInt size,
        lowInt size, (netTiming mode deltatime).1.sec, (netTiming mode deltatime).1.nsec])
      fun w => (∃ err : Failure, w = putWords [err.1, 0, 0]) ∨
        ∃ place, w = putWords [etOk, place, 0] := by
  refine isRequest_of (List.cons_ne_nil _ _) ?_
  rintro _ rest ⟨m, rfl, -⟩
  rw [putWords_cons, List.append_assoc, run_commandLoop]
  rcases hnew : L.eventNew att (netTiming mode deltatime).1 size m with ⟨m', err | place⟩
  · refine ⟨some m', _, .inl ⟨err, rfl⟩, run_bind_of (run_readWords (by rfl) _) ?_⟩
    simp only [List.getD_cons_zero, List.getD_cons_succ, uint64_highInt_lowInt, hnew]
    rfl
  · refine ⟨some (m'.setModify etModify place), _, .inr ⟨place, rfl⟩,
      run_bind_of (run_readWords (by rfl) _) ?_⟩
    simp only [List.getD_cons_zero, List.getD_cons_succ, uint64_highInt_lowInt, hnew]
    rfl

/-- The reply to a request for several new events. -/
def NewReply (w : List Byte) : Prop :=
  (∃ err : Failure, w = putWords [err.1]) ∨
    ∃ places : List Word, places.length < 2 ^ 29 ∧
      w = putWords [BitVec.ofNat 32 places.length] ++ putWords places

theorem newReply_answerNew {r : Memory τ × Except Failure Places}
    (h : ∀ m places, r = (m, .ok places) → places.1.length < 2 ^ 29) :
    NewReply (Local.answerNew r).2 := by
  rcases r with ⟨m, err | places⟩
  · exact .inl ⟨err, rfl⟩
  · refine .inr ⟨places.1, h m places rfl, ?_⟩
    rw [Local.answerNew, writev_eq]
    rfl

theorem answered_eventsNew (fuel : ℕ) (esize : BitVec 64) (att mode : Word)
    (deltatime : Option (ℤ × ℤ)) (size : BitVec 64) (num : Word) :
    (Operation.eventsNew fuel esize att mode deltatime size num).Answered L big
      (putWords [Command.evsNew.code, att, (netTiming mode deltatime).1.wait, highInt size,
        lowInt size, num, (netTiming mode deltatime).1.sec, (netTiming mode deltatime).1.nsec])
      NewReply := by
  refine isRequest_of (List.cons_ne_nil _ _) ?_
  rintro _ rest ⟨m, rfl, hs⟩
  rw [putWords_cons, List.append_assoc, run_commandLoop]
  refine ⟨(Local.answerNew (L.eventsNew att (netTiming mode deltatime).1 size num m)).1, _,
    newReply_answerNew hs, run_bind_of (run_readWords (by rfl) _) ?_⟩
  simp only [List.getD_cons_zero, List.getD_cons_succ, uint64_highInt_lowInt]
  rfl

theorem answered_eventsNewGroup (fuel : ℕ) (esize : BitVec 64) (att mode : Word)
    (deltatime : Option (ℤ × ℤ)) (size : BitVec 64) (num group : Word) :
    (Operation.eventsNewGroup fuel esize att mode deltatime size num group).Answered L big
      (putWords [Command.evsNewGrp.code, att, (netTiming mode deltatime).1.wait, highInt size,
        lowInt size, num, group, (netTiming mode deltatime).1.sec,
        (netTiming mode deltatime).1.nsec])
      NewReply := by
  refine isRequest_of (List.cons_ne_nil _ _) ?_
  rintro _ rest ⟨m, rfl, hs⟩
  rw [putWords_cons, List.append_assoc, run_commandLoop]
  refine ⟨(Local.answerNew (L.eventsNewGroup att (netTiming mode deltatime).1 size num group m)).1,
    _, newReply_answerNew hs, run_bind_of (run_readWords (by rfl) _) ?_⟩
  simp only [List.getD_cons_zero, List.getD_cons_succ, uint64_highInt_lowInt]
  rfl

theorem answered_eventPut (att : Word) {ev : ClientEvent} (hfit : ev.length ≤ ev.memsize) :
    (Operation.eventPut att ev).Answered L big (eventPutRequest big att ev) fun w =>
      w.length = 4 := by
  refine isRequest_of (List.cons_ne_nil _ _) ?_
  rintro _ rest ⟨m, rfl, hobt, hshort⟩
  exact ⟨_, _, length_putWords _, L.run_eventPut big att hobt hfit hshort rest⟩

theorem answered_eventsPut (att : Word) {evs : EventArray}
    (hfit : ∀ ev ∈ evs.sent, ev.length ≤ ev.memsize) :
    (Operation.eventsPut att evs).Answered L big (eventsPutRequest big att evs.sent) fun w =>
      w.length = 4 := by
  refine isRequest_of (List.cons_ne_nil _ _) ?_
  rintro _ rest ⟨m, rfl, hs⟩
  have hcount : evs.sent.length < 2 ^ 31 := (List.length_filter_le _ _).trans_lt evs.2
  exact ⟨_, _, length_putWords _, L.run_eventsPut big att hcount (fun ev hev => (hs ev hev).1) hfit
    (fun ev hev => (hs ev hev).2) rest⟩

theorem answered_eventDump (att : Word) (ev : ClientEvent) :
    (Operation.eventDump att ev).Answered L big
      (putWords [Command.evDump.code, att, ev.place]) fun w => w.length = 4 := by
  refine isRequest_of (List.cons_ne_nil _ _) ?_
  rintro _ rest ⟨m, rfl, -⟩
  rw [putWords_cons, List.append_assoc, run_commandLoop]
  exact ⟨_, _, length_putWords _, run_bind_of (run_readWords (by rfl) _) rfl⟩

theorem answered_eventsDump (att : Word) (evs : EventArray) :
    (Operation.eventsDump att evs).Answered L big (eventsDumpRequest att evs.sent) fun w =>
      w.length = 4 := by
  refine isRequest_of (List.cons_ne_nil _ _) ?_
  rintro _ rest ⟨m, rfl, -⟩
  have hcount : evs.sent.length < 2 ^ 31 := (List.length_filter_le _ _).trans_lt evs.2
  have htoNat : (BitVec.ofNat 32 evs.sent.length).toNat = evs.sent.length := by
    rw [BitVec.toNat_ofNat]
    omega
  have hsplit : eventsDumpRequest att evs.sent ++ rest = htonl Command.evsDump.code ++
      (putWords [att, BitVec.ofNat 32 evs.sent.length] ++
        (putWords (evs.sent.map (·.place)) ++ rest)) := by
    rw [eventsDumpRequest]
    simp only [putWords_cons, putWords_nil, List.append_nil, List.append_assoc]
  rw [hsplit, run_commandLoop]
  refine ⟨some (L.eventsDump att (evs.sent.map (·.place)) m).1,
    putWords [(L.eventsDump att (evs.sent.map (·.place)) m).2], length_putWords _,
    run_bind_of (run_readWords (by rfl) _) ?_⟩
  simp only [List.getD_cons_zero, List.getD_cons_succ, htoNat]
  exact run_bind_of (run_readWords (List.length_map _) _) rfl

/-- The commands without arguments, and their replies. -/
theorem answered_command {o : Operation} {c : Command} {reply : List Byte}
    (h : ∀ m, ∃ t, (L.serveCommand big m c).run = fun rest => some ((t, reply), rest)) :
    o.Answered L big (htonl c.code) fun w => w = reply := by
  refine isRequest_of (List.cons_ne_nil _ _) ?_
  rintro _ rest ⟨m, rfl, -⟩
  obtain ⟨t, ht⟩ := h m
  exact ⟨t, reply, rfl, (run_commandLoop L big m c rest).trans (congrFun ht rest)⟩

/-- Attachments are woken without a reply. -/
theorem answered_wakeup {o : Operation} {c : Command} {id : Word}
    (h : ∀ m, ∃ t, ∀ rest, (L.serveCommand big m c).run (putWords [id] ++ rest) =
      some ((t, []), rest)) :
    o.Answered L big (putWords [c.code, id]) fun w => w = [] := by
  refine isRequest_of (List.cons_ne_nil _ _) ?_
  rintro _ rest ⟨m, rfl, -⟩
  obtain ⟨t, ht⟩ := h m
  refine ⟨t, [], rfl, ?_⟩
  rw [putWords_cons, List.append_assoc, run_commandLoop]
  exact ht rest

/-! ## The discipline of the operations -/

/-- A call whose reply is a status. -/
theorem disciplined_status {o : Operation} {request : List Byte} {writeError readError : Word}
    {result : List Byte → Word} (h : o.Answered L big request fun w => w.length = 4) :
    Disciplined (L.commandLoop big) (o.Servable L) fails .free
      (.exchange request 4 writeError readError fun piece => .unlock (.ret (result piece))) :=
  disciplined_exchange_of_length h.1 (by decide) h.2 fun _ => trivial

/-- The same when the request is written by `etNetTcpWritev`, if a write that is taken for
failed is not answered. -/
theorem disciplined_exchangev {o : Operation} {request : List Byte} {writeError readError : Word}
    {result : List Byte → Word} (h : o.Answered L big request fun w => w.length = 4)
    (hwritev : ∀ s, o.Servable L s → writevFails request.length = false) :
    Disciplined (L.commandLoop big) (o.Servable L) fails .free
      (exchangev request 4 writeError readError fun piece => .unlock (.ret (result piece))) := by
  unfold exchangev
  split
  case isTrue hfails =>
    refine ⟨fun _ hw => hw, h.1, ⟨?_, trivial⟩, fun _ => trivial⟩
    rintro w ⟨s, _, _, hs, -⟩
    exact absurd (hfails.symm.trans (hwritev s hs)) (by decide)
  case isFalse => exact disciplined_status h

theorem disciplined_etrEventGet (fuel : ℕ) (att mode : Word) (deltatime : Option (ℤ × ℤ)) :
    Disciplined (L.commandLoop big) ((Operation.eventGet fuel att mode deltatime).Servable L) fails
      .free (etrEventGet big fuel att mode deltatime) := by
  obtain ⟨hreq, hans⟩ := answered_eventGet L big fuel att mode deltatime
  refine disciplined_etrRetry (fun _ rest => EventBytes big 1 rest) hreq (by decide) ?_
    isNotOk_failure ?_ fuel _
  · intro w hw
    rcases hans w hw with ⟨err, rfl⟩ | ⟨rest, hrest, rfl⟩
    · exact .inl ⟨err, [], rfl, rfl⟩
    · exact .inr ⟨[etOk], rest, rfl, by decide, by decide, hrest, rfl⟩
  · intro first R _ hR
    exact disciplined_recvEvent hR trivial fun ev R' hR' =>
      ⟨fun w hw => (hR' w hw).eq_nil, trivial⟩

theorem disciplined_etrEventsGet (fuel : ℕ) (att mode num : Word) (deltatime : Option (ℤ × ℤ)) :
    Disciplined (L.commandLoop big) ((Operation.eventsGet fuel att mode num deltatime).Servable L)
      fails .free (etrEventsGet big fuel att mode num deltatime) := by
  obtain ⟨hreq, hans⟩ := answered_eventsGet L big fuel att mode num deltatime
  intro b
  cases b with
  | false => trivial
  | true =>
      refine disciplined_etrRetry (fun first rest => ∃ (size : List Word) (es : List Byte),
        size.length = 2 ∧ EventBytes big (first.getD 0 0).toNat es ∧ rest = putWords size ++ es)
        hreq (by decide) ?_ isNegative_failure ?_ fuel _
      · intro w hw
        rcases hans w hw with ⟨err, rfl⟩ | ⟨n, size, rest, hn, hsize, hrest, rfl⟩
        · exact .inl ⟨err, [], rfl, rfl⟩
        · have htoNat : (BitVec.ofNat 32 n).toNat = n := by
            rw [BitVec.toNat_ofNat]
            omega
          obtain ⟨htimeout, hneg⟩ := Local.isNegative_length hn
          refine .inr ⟨[BitVec.ofNat 32 n], _, rfl, htimeout, hneg, ⟨size, rest, hsize, ?_, rfl⟩,
            rfl⟩
          rwa [List.getD_cons_zero, htoNat]
      · intro first R _ hR
        refine disciplined_recv (by decide) ?_ ?_ trivial
        · intro w hw
          obtain ⟨size, es, hsize, -, rfl⟩ := hR w hw
          rw [List.length_append, length_putWords, hsize]
          exact Nat.le_add_right _ _
        · intro piece w hpiece hw
          refine disciplined_recvEvents fun v hv => ?_
          obtain ⟨size, es, hsize, hes, he⟩ := hR _ hv
          obtain ⟨rfl, rfl⟩ := List.append_inj he (by rw [hpiece, length_putWords, hsize])
          exact hes

theorem disciplined_etrEventNew (fuel : ℕ) (esize : BitVec 64) (att mode : Word)
    (deltatime : Option (ℤ × ℤ)) (size : BitVec 64) :
    Disciplined (L.commandLoop big)
      ((Operation.eventNew fuel esize att mode deltatime size).Servable L) fails .free
      (etrEventNew fuel esize att mode deltatime size) := by
  obtain ⟨hreq, hans⟩ :=
    answered_eventNew L big fuel esize att mode deltatime size
  refine disciplined_etrRetry (fun _ rest => rest = []) hreq (by decide) ?_ isNotOk_failure ?_
    fuel _
  · intro w hw
    rcases hans w hw with ⟨err, rfl⟩ | ⟨place, rfl⟩
    · exact .inl ⟨err, [0, 0], rfl, rfl⟩
    · have htimeout : etOk ≠ etErrorTimeout := by decide
      have hok : isNotOk etOk = false := by decide
      exact .inr ⟨[etOk, place, 0], [], rfl, htimeout, hok, rfl, (List.append_nil _).symm⟩
  · intro first R _ hR
    exact ⟨hR, disciplined_makeEvents⟩

/-- The routines that get several new events. -/
theorem disciplined_new {o : Operation} {request : List Byte} {esize size : BitVec 64}
    {mode wait : Word} {fuel : ℕ} {iterations : ℤ} (h : o.Answered L big request NewReply) :
    Disciplined (L.commandLoop big) (o.Servable L) fails .free
      (etrRetry request 1 wait isNegative (recvPlaces esize mode size) fuel iterations) := by
  refine disciplined_etrRetry (fun first rest => rest.length = 4 * (first.getD 0 0).toNat ∧
    (first.getD 0 0).toNat < 2 ^ 29) h.1 (by decide) ?_ isNegative_failure
    (fun first R hsome hR => disciplined_recvPlaces hsome hR) fuel iterations
  intro w hw
  rcases h.2 w hw with ⟨err, rfl⟩ | ⟨places, hplaces, rfl⟩
  · exact .inl ⟨err, [], rfl, rfl⟩
  · have htoNat : (BitVec.ofNat 32 places.length).toNat = places.length := by
      rw [BitVec.toNat_ofNat]
      omega
    obtain ⟨htimeout, hneg⟩ := Local.isNegative_length (n := places.length) (by omega)
    refine .inr ⟨[BitVec.ofNat 32 places.length], _, rfl, htimeout, hneg, ⟨?_, ?_⟩, rfl⟩
    · rw [length_putWords, List.getD_cons_zero, htoNat]
    · rwa [List.getD_cons_zero, htoNat]

theorem disciplined_etrEventPut (att : Word) (ev : ClientEvent) :
    Disciplined (L.commandLoop big) ((Operation.eventPut att ev).Servable L) fails .free
      (etrEventPut big att ev) := by
  unfold etrEventPut
  split
  · trivial
  case isFalse hfit =>
    split
    · trivial
    · split
      · trivial
      · refine disciplined_exchangev (answered_eventPut att (BitVec.not_lt.mp hfit)) ?_
        rintro _ ⟨m, rfl, -, hshort⟩
        exact writevFails_eventPutRequest big att hshort

theorem disciplined_etrEventsPut (att : Word) (evs : EventArray)
    (hlocked : (Operation.eventsPut att evs).Locked big) :
    Disciplined (L.commandLoop big) ((Operation.eventsPut att evs).Servable L) fails .free
      (etrEventsPut big att evs) := by
  unfold etrEventsPut
  split
  · trivial
  case isFalse hfit =>
    have hfit' : ∀ ev ∈ evs.1, ev.length ≤ ev.memsize := fun ev hev =>
      BitVec.not_lt.mp fun hlt => hfit ⟨ev, hev, hlt⟩
    dsimp only
    split
    · trivial
    · intro b
      cases b with
      | false => trivial
      | true =>
          dsimp only
          rw [if_neg (by decide)]
          split
          · trivial
          case isFalse hlacks =>
            refine disciplined_exchangev (answered_eventsPut att fun ev hev => ?_) fun _ _ => ?_
            · exact hfit' ev (List.mem_of_mem_filter hev)
            · exact hlocked hfit' fun ev hev hno => hlacks ⟨ev, hev, hno⟩

theorem disciplined_etrEventDump (att : Word) (ev : ClientEvent) :
    Disciplined (L.commandLoop big) ((Operation.eventDump att ev).Servable L) fails .free
      (etrEventDump att ev) := by
  unfold etrEventDump
  split
  · trivial
  · exact disciplined_status (answered_eventDump att ev)

theorem disciplined_etrEventsDump (att : Word) (evs : EventArray) :
    Disciplined (L.commandLoop big) ((Operation.eventsDump att evs).Servable L) fails .free
      (etrEventsDump att evs) := by
  unfold etrEventsDump
  dsimp only
  split
  · trivial
  · intro b
    cases b with
    | false => trivial
    | true =>
        dsimp only
        rw [if_neg (by decide)]
        split
        · exact ⟨fun _ hw => hw, trivial⟩
        · exact disciplined_status (answered_eventsDump att evs)

theorem disciplined_etrAlive :
    Disciplined (L.commandLoop big) (Operation.alive.Servable L) fails .free etrAlive := by
  obtain ⟨hreq, hans⟩ : Operation.alive.Answered L big (htonl Command.alive.code)
    fun w => w = putWords [1] := answered_command fun m => ⟨some m, rfl⟩
  exact disciplined_status ⟨hreq, fun w hw => hans w hw ▸ length_putWords _⟩

theorem disciplined_etrWaitForAlive :
    Disciplined (L.commandLoop big) (Operation.waitForAlive.Servable L) fails .free
      etrWaitForAlive := by
  obtain ⟨hreq, hans⟩ : Operation.waitForAlive.Answered L big (htonl Command.wait.code)
    fun w => w = putWords [etOk] := answered_command fun m => ⟨some m, rfl⟩
  exact disciplined_status ⟨hreq, fun w hw => hans w hw ▸ length_putWords _⟩

theorem disciplined_etrWakeup {o : Operation} {c : Command} {id : Word}
    (h : o.Answered L big (putWords [c.code, id]) fun w => w = []) :
    Disciplined (L.commandLoop big) (o.Servable L) fails .free (etrWakeup c id) :=
  ⟨fun _ hw => hw, h.1, ⟨h.2, trivial⟩, fun _ => trivial⟩

theorem disciplined_etrClosing {o : Operation} {c : Command}
    (h : o.Answered L big (htonl c.code) fun w => w = []) :
    Disciplined (L.commandLoop big) (o.Servable L) fails .free (etrClosing c) :=
  ⟨fun _ hw => hw, h.1, trivial, fun _ => trivial⟩

/-- `etr_kill` is disciplined as long as its write does not fail. -/
theorem disciplined_etrKill :
    Disciplined (L.commandLoop big) (Operation.kill.Servable L) false .free etrKill := by
  obtain ⟨hreq, -⟩ : Operation.kill.Answered L big (htonl Command.kill.code) fun w => w = [] :=
    answered_command fun m => ⟨none, rfl⟩
  exact ⟨fun _ hw => hw, hreq, trivial, nofun⟩

variable (L big)

/-- **All operations but two are disciplined.** -/
theorem prog_disciplined (o : Operation) (ho : o.Locked big) :
    Disciplined (L.commandLoop big) (o.Servable L) o.writeFails .free (prog big o) := by
  cases o with
  | call junk c => exact (disciplined_etr junk c).map _
  | eventGet fuel att mode deltatime =>
      exact (disciplined_etrEventGet fuel att mode deltatime).map _
  | eventsGet fuel att mode num deltatime =>
      exact (disciplined_etrEventsGet fuel att mode num deltatime).map _
  | eventNew fuel esize att mode deltatime size =>
      exact (disciplined_etrEventNew fuel esize att mode deltatime size).map _
  | eventsNew fuel esize att mode deltatime size num =>
      refine Disciplined.map _ ?_
      intro b
      cases b with
      | false => trivial
      | true => exact disciplined_new (answered_eventsNew fuel esize att mode deltatime size num)
  | eventsNewGroup fuel esize att mode deltatime size num group =>
      refine Disciplined.map _ ?_
      intro b
      cases b with
      | false => trivial
      | true =>
          exact disciplined_new
            (answered_eventsNewGroup fuel esize att mode deltatime size num group)
  | eventPut att ev => exact (disciplined_etrEventPut att ev).map _
  | eventsPut att evs => exact (disciplined_etrEventsPut att evs ho).map _
  | eventDump att ev => exact (disciplined_etrEventDump att ev).map _
  | eventsDump att evs => exact (disciplined_etrEventsDump att evs).map _
  | alive => exact disciplined_etrAlive.map _
  | waitForAlive => exact disciplined_etrWaitForAlive.map _
  | wakeupAttachment att =>
      refine Disciplined.map _ (disciplined_etrWakeup (answered_wakeup fun m => ?_))
      exact ⟨_, fun rest => run_bind_of (run_readWord _ _) rfl⟩
  | wakeupAll stat =>
      refine Disciplined.map _ (disciplined_etrWakeup (answered_wakeup fun m => ?_))
      exact ⟨_, fun rest => run_bind_of (run_readWord _ _) rfl⟩
  | close =>
      exact (disciplined_etrClosing (answered_command fun _ => ⟨none, rfl⟩)).map _
  | forcedclose =>
      exact (disciplined_etrClosing (answered_command fun _ => ⟨none, rfl⟩)).map _
  | kill => exact disciplined_etrKill.map _
  | dataGet => exact ho.elim
  | dataGethistogram nevents hist size => exact ho.elim

end

/-! ## Runs -/

/-- The operations under way on one connection. -/
abbrev Threads (τ : Type) := Shared Operation (Option (Memory τ))

/-- **Requests and replies are paired**: what an operation is about to read are bytes of its
own reply, and an operation that is over does not have the lock and has read all of its
reply. -/
structure Paired (s : Threads τ) : Prop where
  own : ∀ k n next, s.call k = .recv n next → ∀ x ∈ s.down, x.1 = k
  released : ∀ k, s.call k = .ret () → s.holder ≠ some k ∧ ∀ x ∈ s.down, x.1 ≠ k

/-- A server that nobody has used. -/
def quietServer : Threads (Word × Word) := .initial .alive (some .unnoted)

theorem reach_quietServer (P : Threads (Word × Word) → Act Operation _ → Prop) :
    (Shared.machine (Local.noting.commandLoop false) (prog false)).Reach P quietServer :=
  .start ⟨_, _, rfl⟩

end EventTransfer
