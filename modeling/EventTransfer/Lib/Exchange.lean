import EventTransfer.Lib.StepRun
import EventTransfer.Lib.Wire

/-!
# Clients of a server that share one connection

A server answers the requests that arrive on a byte stream one after the other.  A `Routine`
is what a client does to make one call: it takes the lock of the connection, writes a
request, reads the reply in one or several pieces, and gives the lock back.  Writing and
reading can fail, and so can what a routine does in between (`choose`, such as getting
memory).

* `converse` runs one routine alone against the server.
* `Shared` is the state of any number of calls under way on one connection, and
  `Shared.step` its atomic steps.  Each byte in flight carries the number of the call that
  wrote it or whose request it answers.
* `Disciplined` is what a routine has to observe: nothing is written or read without the
  lock; what is written is a request; all of its reply is read before the lock is given
  back, on every path.
* `Shared.reads_own_reply`, `Shared.lock_free` — in every run of disciplined routines each
  call reads bytes of its own reply only, and when it returns the lock is not held by it and
  none of its bytes is left.
-/

namespace Exchange

open Wire StepRun

universe u

variable {σ : Type u} {α : Type}

/-- **What a client does to make a call.**  `hang` never returns. -/
inductive Routine (α : Type)
  | ret (a : α)
  | lock (next : Routine α)
  | unlock (next : Routine α)
  | send (bytes : List Byte) (next : Bool → Routine α)
  | recv (n : ℕ) (next : Option (List Byte) → Routine α)
  | choose (next : Bool → Routine α)
  | close (next : Routine α)
  | hang

/-- What a routine returns is mapped. -/
def Routine.map {β : Type} (f : α → β) : Routine α → Routine β
  | .ret a => .ret (f a)
  | .lock next => .lock (next.map f)
  | .unlock next => .unlock (next.map f)
  | .send bytes next => .send bytes fun ok => (next ok).map f
  | .recv n next => .recv n fun piece => (next piece).map f
  | .choose next => .choose fun b => (next b).map f
  | .close next => .close (next.map f)
  | .hang => .hang

/-- **The usual call**: under the lock, write the request and read the first `n` bytes of
the reply.  The lock is given back when either fails. -/
def Routine.exchange (request : List Byte) (n : ℕ) (writeError readError : α)
    (next : List Byte → Routine α) : Routine α :=
  .lock <| .send request fun ok =>
    if ok then .recv n fun
      | some piece => next piece
      | none => .unlock (.ret readError)
    else .unlock (.ret writeError)

/-- A server: from its state and the stream of requests it takes one request, and gives its
new state and the reply. -/
abbrev Server (σ : Type u) := σ → List Byte → Option ((σ × List Byte) × List Byte)

/-! ### One client alone -/

/-- A connection: the state of the server, the bytes on their way to it, and those on their
way back. -/
structure Conn (σ : Type u) where
  server : σ
  up : List Byte
  down : List Byte

/-- Nothing is on its way. -/
def Conn.quiet (s : σ) : Conn σ := ⟨s, [], []⟩

/-- A routine runs alone on a connection that works.  `none`: it waits forever. -/
def converse (serve : Server σ) : Routine α → Conn σ → Option (α × Conn σ)
  | .ret a, c => some (a, c)
  | .lock next, c => converse serve next c
  | .unlock next, c => converse serve next c
  | .send bytes next, c =>
      match serve c.server (c.up ++ bytes) with
      | some ((s, reply), rest) => converse serve (next true) ⟨s, rest, c.down ++ reply⟩
      | none => converse serve (next true) { c with up := c.up ++ bytes }
  | .recv n next, c =>
      if n ≤ c.down.length then
        converse serve (next (some (c.down.take n))) { c with down := c.down.drop n }
      else none
  | .choose next, c => converse serve (next true) c
  | .close next, c => converse serve next c
  | .hang, _ => none

/-- A request that the server takes as a whole. -/
theorem converse_send {serve : Server σ} {s s' : σ} {bytes reply : List Byte}
    {next : Bool → Routine α} (h : serve s bytes = some ((s', reply), [])) :
    converse serve (.send bytes next) (.quiet s) =
      converse serve (next true) ⟨s', [], reply⟩ := by
  simp [converse, Conn.quiet, h]

/-- A piece of the reply. -/
theorem converse_recv {serve : Server σ} {s : σ} {up piece rest : List Byte} {n : ℕ}
    {next : Option (List Byte) → Routine α} (h : piece.length = n) :
    converse serve (.recv n next) ⟨s, up, piece ++ rest⟩ =
      converse serve (next (some piece)) ⟨s, up, rest⟩ := by
  have hle : n ≤ (piece ++ rest).length := by
    rw [List.length_append]
    omega
  rw [converse, if_pos hle, List.take_left' h, List.drop_left' h]

/-- What a routine alone chooses goes well. -/
theorem converse_choose {serve : Server σ} {next : Bool → Routine α} {c : Conn σ} :
    converse serve (.choose next) c = converse serve (next true) c := rfl

theorem converse_exchange {serve : Server σ} {s s' : σ} {request piece rest : List Byte} {n : ℕ}
    {writeError readError : α} {next : List Byte → Routine α}
    (h : serve s request = some ((s', piece ++ rest), [])) (hn : piece.length = n) :
    converse serve (.exchange request n writeError readError next) (.quiet s) =
      converse serve (next piece) ⟨s', [], rest⟩ := by
  rw [Routine.exchange, converse, converse_send h, if_pos rfl, converse_recv hn]

/-- The usual call when the reply has `n` bytes. -/
theorem converse_exchange_of_length {serve : Server σ} {s s' : σ} {request reply : List Byte}
    {n : ℕ} {writeError readError : α} {next : List Byte → Routine α}
    (h : serve s request = some ((s', reply), [])) (hn : reply.length = n) :
    converse serve (.exchange request n writeError readError next) (.quiet s) =
      converse serve (next reply) (.quiet s') :=
  converse_exchange (by rwa [List.append_nil]) hn

/-- A call whose request the server never takes waits forever. -/
theorem converse_exchange_of_stuck {serve : Server σ} {s : σ} {request : List Byte} {n : ℕ}
    {writeError readError : α} {next : List Byte → Routine α} (h : serve s request = none)
    (hn : 0 < n) :
    converse serve (.exchange request n writeError readError next) (.quiet s) = none := by
  have hlong : ¬ n ≤ ([] : List Byte).length := not_le.mpr hn
  simp only [Routine.exchange, converse, Conn.quiet, List.nil_append, h, if_true, if_neg hlong]

/-- **A server that takes no more requests** stays as it is, whatever the client does. -/
theorem converse_stuck {serve : Server σ} {s : σ} (hstuck : ∀ bytes, serve s bytes = none)
    {r : Routine α} {up down : List Byte} {a : α} {c : Conn σ}
    (h : converse serve r ⟨s, up, down⟩ = some (a, c)) : c.server = s := by
  induction r generalizing up down with
  | ret b =>
      cases h
      rfl
  | lock next ih => exact ih h
  | unlock next ih => exact ih h
  | close next ih => exact ih h
  | choose next ih => exact ih true h
  | hang => exact nomatch h
  | send bytes next ih =>
      rw [converse] at h
      dsimp only at h
      rw [hstuck] at h
      exact ih true h
  | recv n next ih =>
      rw [converse] at h
      split at h
      · exact ih _ h
      · exact nomatch h

/-- The usual call, when its request is the last one the server takes. -/
theorem converse_exchange_stuck {serve : Server σ} {s s' : σ} {request reply rest : List Byte}
    {n : ℕ} {writeError readError : α} {next : List Byte → Routine α} {a : α} {c : Conn σ}
    (hserve : serve s request = some ((s', reply), rest)) (hstuck : ∀ bytes, serve s' bytes = none)
    (h : converse serve (.exchange request n writeError readError next) (.quiet s) =
      some (a, c)) : c.server = s' := by
  simp only [Routine.exchange, converse, Conn.quiet, List.nil_append, hserve] at h
  exact converse_stuck hstuck h

/-! ### Many clients -/

variable {ι : Type}

/-- The connection and the calls made on it.  Call `k` is a call of kind `name k`; calls
from `next` on have not started.  `holder` has the lock. -/
structure Shared (ι : Type) (σ : Type u) where
  server : σ
  broken : Bool
  holder : Option ℕ
  name : ℕ → ι
  call : ℕ → Routine Unit
  next : ℕ
  up : List (ℕ × Byte)
  down : List (ℕ × Byte)

/-- The atomic steps: what the calls do, the server answering a request, other clients of the
server changing its state (`env`), and the loss of the connection. -/
inductive Act (ι : Type) (σ : Type u)
  | start (c : ι)
  | lock (k : ℕ)
  | unlock (k : ℕ)
  | send (k : ℕ) (ok : Bool)
  | recv (k : ℕ) (ok : Bool)
  | choose (k : ℕ) (b : Bool)
  | close (k : ℕ)
  | serve
  | env (s : σ)
  | lose

/-- Bytes of call `k`. -/
def tag (k : ℕ) (bytes : List Byte) : List (ℕ × Byte) := bytes.map (Prod.mk k)

@[simp] theorem tag_nil (k : ℕ) : tag k [] = [] := rfl

@[simp] theorem length_tag (k : ℕ) (bytes : List Byte) : (tag k bytes).length = bytes.length :=
  List.length_map _

@[simp] theorem map_snd_tag (k : ℕ) (bytes : List Byte) : (tag k bytes).map Prod.snd = bytes := by
  rw [tag, List.map_map]
  exact List.map_id _

theorem tag_take (k n : ℕ) (bytes : List Byte) : (tag k bytes).take n = tag k (bytes.take n) :=
  (List.map_take ..).symm

theorem tag_drop (k n : ℕ) (bytes : List Byte) : (tag k bytes).drop n = tag k (bytes.drop n) :=
  (List.map_drop ..).symm

theorem fst_of_mem_tag {k : ℕ} {bytes : List Byte} {x : ℕ × Byte} (h : x ∈ tag k bytes) :
    x.1 = k := by
  obtain ⟨b, -, rfl⟩ := List.mem_map.mp h
  rfl

namespace Shared

/-- Call `k` goes on with `r`. -/
def setCall (s : Shared ι σ) (k : ℕ) (r : Routine Unit) : Shared ι σ :=
  { s with call := Function.update s.call k r }

/-- The connection is lost, with what was on its way. -/
def lose (s : Shared ι σ) : Shared ι σ := { s with broken := true, up := [], down := [] }

/-- The server takes one request and answers it. -/
def serveOne (serve : Server σ) (s : Shared ι σ) : Option (Shared ι σ) :=
  match s.up with
  | [] => none
  | (k, _) :: _ =>
      (serve s.server (s.up.map Prod.snd)).map fun ((t, reply), rest) =>
        { s with
          server := t
          up := s.up.drop (s.up.length - rest.length)
          down := s.down ++ tag k reply }

/-- **The steps**; `none` when they are not possible.  A write can fail, or go nowhere, and a
read can fail, when the connection is lost. -/
def step (serve : Server σ) (prog : ι → Routine Unit) (s : Shared ι σ) :
    Act ι σ → Option (Shared ι σ)
  | .start c =>
      some { s with
        name := Function.update s.name s.next c
        call := Function.update s.call s.next (prog c)
        next := s.next + 1 }
  | .lock k =>
      match s.call k with
      | .lock next => if s.holder = none then some { s.setCall k next with holder := some k }
          else none
      | _ => none
  | .unlock k =>
      match s.call k with
      | .unlock next => some { s.setCall k next with holder := none }
      | _ => none
  | .send k ok =>
      match s.call k with
      | .send bytes next =>
          if s.broken then some (s.setCall k (next ok))
          else if ok then some { s.setCall k (next true) with up := s.up ++ tag k bytes }
          else none
      | _ => none
  | .recv k ok =>
      match s.call k with
      | .recv n next =>
          if ok then
            if n ≤ s.down.length then
              some { s.setCall k (next (some ((s.down.take n).map Prod.snd))) with
                down := s.down.drop n }
            else none
          else if s.broken then some (s.setCall k (next none))
          else none
      | _ => none
  | .choose k b =>
      match s.call k with
      | .choose next => some (s.setCall k (next b))
      | _ => none
  | .close k =>
      match s.call k with
      | .close next => some (s.setCall k next).lose
      | _ => none
  | .serve => s.serveOne serve
  | .env t => some { s with server := t }
  | .lose => some s.lose

end Shared

/-! ### The discipline -/

/-- Where a routine is: it does not have the lock; it has the lock and still has to read a
reply in `R`; it has the lock and the connection is lost. -/
inductive Phase
  | free
  | await (R : List Byte → Prop)
  | broken

/-- The routine has the lock and nothing to read. -/
def Phase.held : Phase := .await fun w => w = []

/-- The server takes exactly `bytes` from the front of the stream.  `Can s` says in which
states it is asked to. -/
def IsRequest (serve : Server σ) (Can : σ → Prop) (bytes : List Byte) : Prop :=
  bytes ≠ [] ∧ ∀ s rest, Can s → ∃ t reply, serve s (bytes ++ rest) = some ((t, reply), rest)

/-- The replies it gives. -/
def Answers (serve : Server σ) (Can : σ → Prop) (bytes w : List Byte) : Prop :=
  ∃ s t rest, Can s ∧ serve s (bytes ++ rest) = some ((t, w), rest)

/-- A request and what its replies are like, from what the server does with it. -/
theorem isRequest_of {serve : Server σ} {Can : σ → Prop} {bytes : List Byte}
    {Q : List Byte → Prop} (hne : bytes ≠ [])
    (h : ∀ s rest, Can s → ∃ t reply, Q reply ∧
      serve s (bytes ++ rest) = some ((t, reply), rest)) :
    IsRequest serve Can bytes ∧ ∀ w, Answers serve Can bytes w → Q w := by
  refine ⟨⟨hne, fun s rest hs => ?_⟩, ?_⟩
  · obtain ⟨t, reply, -, hserve⟩ := h s rest hs
    exact ⟨t, reply, hserve⟩
  · rintro w ⟨s, t, rest, hs, hserve⟩
    obtain ⟨t', reply, hQ, hserve'⟩ := h s rest hs
    have heq := hserve.symm.trans hserve'
    simp only [Option.some.injEq, Prod.mk.injEq, and_true] at heq
    exact heq.2 ▸ hQ

/-- **The discipline.**  `fails` says whether a write that fails is considered. -/
def Disciplined (serve : Server σ) (Can : σ → Prop) (fails : Bool) :
    Phase → Routine α → Prop
  | .free, .ret _ => True
  | .free, .hang => True
  | .free, .lock next => Disciplined serve Can fails .held next
  | .free, .choose next => ∀ b, Disciplined serve Can fails .free (next b)
  | .await R, .unlock next => (∀ w, R w → w = []) ∧ Disciplined serve Can fails .free next
  | .await R, .send bytes next =>
      (∀ w, R w → w = []) ∧ IsRequest serve Can bytes ∧
      Disciplined serve Can fails (.await (Answers serve Can bytes)) (next true) ∧
      (fails = true → Disciplined serve Can fails .broken (next false))
  | .await R, .recv n next =>
      (n = 0 → Disciplined serve Can fails (.await R) (next (some []))) ∧
      (∀ w, R w → n ≤ w.length) ∧
      (0 < n → ∀ piece w, piece.length = n → R (piece ++ w) →
        Disciplined serve Can fails (.await fun w => R (piece ++ w)) (next (some piece))) ∧
      Disciplined serve Can fails .broken (next none)
  | .await R, .choose next => Disciplined serve Can fails (.await R) (next true)
  | .await _, .close next => Disciplined serve Can fails .broken next
  | .broken, .unlock next => Disciplined serve Can fails .free next
  | .broken, .close next => Disciplined serve Can fails .broken next
  | _, _ => False

section

variable {serve : Server σ} {Can : σ → Prop} {fails : Bool}

theorem Disciplined.map {β : Type} (f : α → β) {p : Phase} {r : Routine α}
    (h : Disciplined serve Can fails p r) : Disciplined serve Can fails p (r.map f) := by
  induction r generalizing p with
  | ret a => cases p <;> exact h
  | lock next ih =>
      cases p with
      | free => exact ih h
      | _ => exact h
  | unlock next ih =>
      cases p with
      | free => exact h
      | await R => exact ⟨h.1, ih h.2⟩
      | broken => exact ih h
  | send bytes next ih =>
      cases p with
      | await R => exact ⟨h.1, h.2.1, ih true h.2.2.1, fun hf => ih false (h.2.2.2 hf)⟩
      | _ => exact h
  | recv n next ih =>
      cases p with
      | await R =>
          obtain ⟨hzero, hlen, hpiece, hnone⟩ := h
          exact ⟨fun hn => ih (some []) (hzero hn), hlen,
            fun hn piece w hp hw => ih (some piece) (hpiece hn piece w hp hw), ih none hnone⟩
      | _ => exact h
  | choose next ih =>
      cases p with
      | free => exact fun b => ih b (h b)
      | await R => exact ih true h
      | broken => exact h
  | close next ih =>
      cases p with
      | free => exact h
      | await R => exact ih h
      | broken => exact ih h
  | hang => cases p <;> exact h

/-- A piece of the reply is read. -/
theorem disciplined_recv {R : List Byte → Prop} {n : ℕ} {next : Option (List Byte) → Routine α}
    (hn : 0 < n) (hlen : ∀ w, R w → n ≤ w.length)
    (hpiece : ∀ piece w, piece.length = n → R (piece ++ w) →
      Disciplined serve Can fails (.await fun w => R (piece ++ w)) (next (some piece)))
    (hnone : Disciplined serve Can fails .broken (next none)) :
    Disciplined serve Can fails (.await R) (.recv n next) :=
  ⟨fun hzero => absurd hzero hn.ne', hlen, fun _ => hpiece, hnone⟩

/-- The usual call is disciplined when what follows reads the rest of the reply. -/
theorem disciplined_exchange {request : List Byte} {n : ℕ} {writeError readError : α}
    {next : List Byte → Routine α} (hreq : IsRequest serve Can request)
    (hn : 0 < n) (hlen : ∀ w, Answers serve Can request w → n ≤ w.length)
    (hnext : ∀ piece w, piece.length = n → Answers serve Can request (piece ++ w) →
      Disciplined serve Can fails (.await fun w => Answers serve Can request (piece ++ w))
        (next piece)) :
    Disciplined serve Can fails .free (.exchange request n writeError readError next) :=
  ⟨fun _ hw => hw, hreq, disciplined_recv hn hlen hnext trivial, fun _ => trivial⟩

/-- The usual call when the reply has `n` bytes. -/
theorem disciplined_exchange_of_length {request : List Byte} {n : ℕ} {writeError readError : α}
    {next : List Byte → Routine α} (hreq : IsRequest serve Can request) (hn : 0 < n)
    (hlen : ∀ w, Answers serve Can request w → w.length = n)
    (hnext : ∀ piece, Disciplined serve Can fails .free (next piece)) :
    Disciplined serve Can fails .free
      (.exchange request n writeError readError fun piece => .unlock (next piece)) := by
  refine disciplined_exchange hreq hn (fun w hw => (hlen w hw).ge) ?_
  intro piece _ hp _
  refine ⟨?_, hnext piece⟩
  intro w hw
  have hw := hlen _ hw
  rw [List.length_append] at hw
  exact List.length_eq_zero_iff.mp (by omega)

end

namespace Shared

variable {serve : Server σ} {Compat : ι → σ → Prop} {fails : ι → Bool}
  {prog : ι → Routine Unit} {s t : Shared ι σ} {k : ℕ}

/-- Nobody has called yet. -/
def initial (c : ι) (s : σ) : Shared ι σ where
  server := s
  broken := false
  holder := none
  name _ := c
  call _ := .ret ()
  next := 0
  up := []
  down := []

/-- The calls on one connection. -/
def machine (serve : Server σ) (prog : ι → Routine Unit) : Machine (Shared ι σ) (Act ι σ) :=
  .ofStep (fun s => ∃ c t, s = initial c t) (step serve prog)

/-- The call whose request is first in line can be answered: `Compat c` are the states in which
the server can answer a call of kind `c`. -/
def Ready (Compat : ι → σ → Prop) (s : Shared ι σ) : Prop :=
  ∀ k b rest, s.up = (k, b) :: rest → Compat (s.name k) s.server

/-- **Orderly steps.**  The calls made are `Good`, a write fails only where `fails` admits it,
nothing that is done between request and reply fails, and the server is asked to answer a
call only in a state in which it can. -/
def Orderly (Compat : ι → σ → Prop) (fails : ι → Bool) (Good : ι → Prop)
    (s : Shared ι σ) : Act ι σ → Prop
  | .start c => Good c
  | .send k false => fails (s.name k) = true
  | .choose k false => s.holder ≠ some k
  | .serve => s.Ready Compat
  | _ => True

/-- Requests without a reply that the server has yet to take, of calls before `next`. -/
inductive Backlog (serve : Server σ) (Compat : ι → σ → Prop) (name : ℕ → ι) (next : ℕ) :
    List (ℕ × Byte) → Prop
  | nil : Backlog serve Compat name next []
  | cons {bytes : List Byte} {rest : List (ℕ × Byte)} (k : ℕ) (started : k < next)
      (request : IsRequest serve (Compat (name k)) bytes)
      (silent : ∀ w, Answers serve (Compat (name k)) bytes w → w = [])
      (tail : Backlog serve Compat name next rest) :
      Backlog serve Compat name next (tag k bytes ++ rest)

/-- What is on its way when call `k` still has to read a reply in `R`: the rest of the reply,
the request, or nothing because the connection is lost. -/
inductive InFlight (serve : Server σ) (Compat : ι → σ → Prop) (s : Shared ι σ) (k : ℕ)
    (R : List Byte → Prop) : Prop
  | reply (w : List Byte) (hw : R w) (up : Backlog serve Compat s.name s.next s.up)
      (down : s.down = tag k w)
  | request (before : List (ℕ × Byte)) (bytes : List Byte)
      (isRequest : IsRequest serve (Compat (s.name k)) bytes)
      (answers : ∀ w, Answers serve (Compat (s.name k)) bytes w → R w)
      (backlog : Backlog serve Compat s.name s.next before)
      (up : s.up = before ++ tag k bytes) (down : s.down = [])
  | lost (broken : s.broken = true) (up : s.up = []) (down : s.down = [])

/-- Call `k` has the lock. -/
inductive Holds (serve : Server σ) (Compat : ι → σ → Prop) (fails : ι → Bool)
    (s : Shared ι σ) (k : ℕ) : Prop
  | await (R : List Byte → Prop)
      (call : Disciplined serve (Compat (s.name k)) (fails (s.name k)) (.await R) (s.call k))
      (flight : InFlight serve Compat s k R)
  | broken
      (call : Disciplined serve (Compat (s.name k)) (fails (s.name k)) .broken (s.call k))
      (broken : s.broken = true) (up : s.up = []) (down : s.down = [])

/-- **The invariant**: whoever does not have the lock is disciplined, and all bytes on their
way belong to the call that has it. -/
structure Inv (serve : Server σ) (Compat : ι → σ → Prop) (fails : ι → Bool)
    (s : Shared ι σ) : Prop where
  started : ∀ k, s.next ≤ k → s.call k = .ret ()
  others : ∀ k, s.holder ≠ some k → Disciplined serve (Compat (s.name k)) (fails (s.name k)) .free (s.call k)
  quiet : s.holder = none → Backlog serve Compat s.name s.next s.up ∧ s.down = []
  lost : s.broken = true → s.up = [] ∧ s.down = []
  holds : ∀ k, s.holder = some k → Holds serve Compat fails s k

theorem inv_initial (c : ι) (r : σ) : Inv serve Compat fails (initial c r) :=
  ⟨fun _ _ => rfl, fun _ _ => trivial, fun _ => ⟨.nil, rfl⟩, nofun, nofun⟩

/-- A call that still has something to do has started. -/
theorem Inv.lt_next (h : Inv serve Compat fails s) (hk : s.call k ≠ .ret ()) : k < s.next := by
  by_contra hle
  exact hk (h.started k (not_lt.mp hle))

/-- A call that has the lock is not over. -/
theorem Holds.ne_ret (h : Holds serve Compat fails s k) : s.call k ≠ .ret () := by
  intro hr
  rcases h with ⟨R, hc, -⟩ | ⟨hc, -⟩
  · rw [hr] at hc
    exact hc
  · rw [hr] at hc
    exact hc

/-- A call without the lock can only take it, choose, or stop. -/
theorem Inv.holder_of_not_free (h : Inv serve Compat fails s)
    (hfree : ¬ Disciplined serve (Compat (s.name k)) (fails (s.name k)) .free (s.call k)) :
    s.holder = some k := by
  by_contra hk
  exact hfree (h.others k hk)

/-- The call that has the lock goes on and keeps it. -/
theorem Inv.keep (h : Inv serve Compat fails s) {r : Routine Unit} (hk : s.holder = some k)
    {t : Shared ι σ} (hname : t.name = s.name) (hholder : t.holder = s.holder)
    (hnext : t.next = s.next) (hcall : t.call = Function.update s.call k r)
    (hlost : t.broken = true → t.up = [] ∧ t.down = [])
    (hholds : Holds serve Compat fails t k) : Inv serve Compat fails t := by
  have hlt : k < s.next := h.lt_next (h.holds k hk).ne_ret
  refine ⟨fun j hj => ?_, fun j hj => ?_, fun hn => ?_, hlost, fun j hj => ?_⟩
  · rw [hnext] at hj
    rw [hcall, Function.update_of_ne (by omega)]
    exact h.started j hj
  · rw [hholder] at hj
    have hne : j ≠ k := by
      rintro rfl
      exact hj hk
    rw [hname, hcall, Function.update_of_ne hne]
    exact h.others j hj
  · rw [hholder, hk] at hn
    exact nomatch hn
  · rw [hholder, hk] at hj
    cases hj
    exact hholds

/-- A call that does not have the lock goes on without it. -/
theorem Inv.elsewhere (h : Inv serve Compat fails s) {r : Routine Unit} (hk : s.holder ≠ some k)
    (hlt : k < s.next) (hr : Disciplined serve (Compat (s.name k)) (fails (s.name k)) .free r) :
    Inv serve Compat fails (s.setCall k r) := by
  refine ⟨fun j hj => ?_, fun j hj => ?_, h.quiet, h.lost, fun j hj => ?_⟩
  · have hj' : s.next ≤ j := hj
    have hjk : j ≠ k := by omega
    simpa [setCall, hjk] using h.started j hj'
  · by_cases hjk : j = k
    · subst hjk
      simpa [setCall] using hr
    · simpa [setCall, hjk] using h.others j hj
  · have hjk : j ≠ k := by
      rintro rfl
      exact hk hj
    have hcall : (s.setCall k r).call j = s.call j := Function.update_of_ne hjk _ _
    rcases h.holds j hj with ⟨R, hc, hf⟩ | ⟨hc, hb, hu, hd⟩
    · refine .await R (hcall ▸ hc) ?_
      rcases hf with ⟨w, hw, hu, hd⟩ | ⟨before, bytes, hr, ha, hbl, hu, hd⟩ | ⟨hb, hu, hd⟩
      · exact .reply w hw hu hd
      · exact .request before bytes hr ha hbl hu hd
      · exact .lost hb hu hd
    · exact .broken (hcall ▸ hc) hb hu hd

/-- The lock is given back. -/
theorem Inv.release (h : Inv serve Compat fails s) {r : Routine Unit} (hk : s.holder = some k)
    (hr : Disciplined serve (Compat (s.name k)) (fails (s.name k)) .free r) (hu : Backlog serve Compat s.name s.next s.up)
    (hd : s.down = []) : Inv serve Compat fails { s.setCall k r with holder := none } := by
  have hlt : k < s.next := h.lt_next (h.holds k hk).ne_ret
  refine ⟨fun j hj => ?_, fun j _ => ?_, fun _ => ⟨hu, hd⟩, h.lost, nofun⟩
  · have hj' : s.next ≤ j := hj
    have hjk : j ≠ k := by omega
    simpa [setCall, hjk] using h.started j hj'
  by_cases hjk : j = k
  · subst hjk
    simpa [setCall] using hr
  · have hj : s.holder ≠ some j := by
      rw [hk]
      intro he
      exact hjk (Option.some.inj he).symm
    simpa [setCall, hjk] using h.others j hj

/-! ### One step -/

/-- A call that starts leaves the requests of the others what they are. -/
theorem Backlog.start {name : ℕ → ι} {next : ℕ} {up : List (ℕ × Byte)}
    (h : Backlog serve Compat name next up) (c : ι) :
    Backlog serve Compat (Function.update name next c) (next + 1) up := by
  induction h with
  | nil => exact .nil
  | cons k started request silent _ ih =>
      have hname : Function.update name next c k = name k :=
        Function.update_of_ne started.ne _ _
      refine .cons k (Nat.lt_succ_of_lt started) ?_ ?_ ih
      · rwa [hname]
      · rwa [hname]

theorem Inv.start (h : Inv serve Compat fails s) (c : ι)
    (hc : Disciplined serve (Compat c) (fails c) .free (prog c)) :
    Inv serve Compat fails { s with
      name := Function.update s.name s.next c
      call := Function.update s.call s.next (prog c)
      next := s.next + 1 } := by
  have hnew : ∀ j, s.holder = some j → j ≠ s.next := by
    intro j hj
    exact (h.lt_next (h.holds j hj).ne_ret).ne
  have hquiet : s.holder = none →
      Backlog serve Compat (Function.update s.name s.next c) (s.next + 1) s.up ∧ s.down = [] := by
    intro hn
    obtain ⟨hu, hd⟩ := h.quiet hn
    exact ⟨hu.start c, hd⟩
  refine ⟨fun j hj => ?_, fun j hj => ?_, hquiet, h.lost, fun j hj => ?_⟩
  · have hj' : s.next + 1 ≤ j := hj
    have hjn : j ≠ s.next := by omega
    simpa [hjn] using h.started j (by omega)
  · by_cases hjn : j = s.next
    · subst hjn
      simpa using hc
    · simpa [hjn] using h.others j hj
  · have hne := hnew j hj
    have hname : Function.update s.name s.next c j = s.name j := Function.update_of_ne hne _ _
    have hcall : Function.update s.call s.next (prog c) j = s.call j :=
      Function.update_of_ne hne _ _
    rcases h.holds j hj with ⟨R, hd, hf⟩ | ⟨hd, hb, hu, hdn⟩
    · refine .await R (by dsimp only; rwa [hname, hcall]) ?_
      rcases hf with ⟨w, hw, hu, hdn⟩ | ⟨before, bytes, hr, ha, hbl, hu, hdn⟩ | ⟨hb, hu, hdn⟩
      · exact .reply w hw (hu.start c) hdn
      · refine .request before bytes ?_ ?_ (hbl.start c) hu hdn
        · dsimp only
          rwa [hname]
        · dsimp only
          rwa [hname]
      · exact .lost hb hu hdn
    · exact .broken (by dsimp only; rwa [hname, hcall]) hb hu hdn

theorem Inv.lock (h : Inv serve Compat fails s) {next : Routine Unit}
    (hcall : s.call k = .lock next) (hnone : s.holder = none) :
    Inv serve Compat fails { s.setCall k next with holder := some k } := by
  have hk : k < s.next := by
    apply h.lt_next
    rw [hcall]
    exact nofun
  have hfree := h.others k (by rw [hnone]; exact nofun)
  rw [hcall] at hfree
  obtain ⟨hu, hd⟩ := h.quiet hnone
  refine ⟨fun j hj => ?_, fun j hj => ?_, nofun, h.lost, fun j hj => ?_⟩
  · have hj' : s.next ≤ j := hj
    have hjk : j ≠ k := by omega
    simpa [setCall, hjk] using h.started j hj'
  · have hjk : j ≠ k := by
      rintro rfl
      exact hj rfl
    simpa [setCall, hjk] using h.others j (by rw [hnone]; exact nofun)
  · cases hj
    refine .await (fun w => w = []) ?_ (.reply [] rfl hu hd)
    simpa [setCall, Disciplined, Phase.held] using hfree

theorem Backlog.append {name : ℕ → ι} {next : ℕ} {before : List (ℕ × Byte)}
    (h : Backlog serve Compat name next before) {k : ℕ} (hk : k < next) {bytes : List Byte}
    (hr : IsRequest serve (Compat (name k)) bytes)
    (hs : ∀ w, Answers serve (Compat (name k)) bytes w → w = []) :
    Backlog serve Compat name next (before ++ tag k bytes) := by
  induction h with
  | nil => simpa using Backlog.cons k hk hr hs .nil
  | cons j hj hr' hs' _ ih =>
      rw [List.append_assoc]
      exact .cons j hj hr' hs' ih

/-- With nothing left to read, only requests without a reply are on their way. -/
theorem InFlight.backlog {R : List Byte → Prop} (h : InFlight serve Compat s k R)
    (hk : k < s.next) (hempty : ∀ w, R w → w = []) : Backlog serve Compat s.name s.next s.up ∧ s.down = [] := by
  rcases h with ⟨w, hw, hu, hd⟩ | ⟨before, bytes, hr, ha, hbl, hu, hd⟩ | ⟨hb, hu, hd⟩
  · rw [hempty w hw] at hd
    exact ⟨hu, hd⟩
  · rw [hu]
    exact ⟨hbl.append hk hr fun w hw => hempty w (ha w hw), hd⟩
  · rw [hu]
    exact ⟨.nil, hd⟩

theorem Inv.unlock (h : Inv serve Compat fails s) {next : Routine Unit}
    (hcall : s.call k = .unlock next) :
    Inv serve Compat fails { s.setCall k next with holder := none } := by
  have hk : s.holder = some k := by
    apply h.holder_of_not_free
    rw [hcall]
    exact id
  rcases h.holds k hk with ⟨R, hc, hf⟩ | ⟨hc, hb, hu, hd⟩
  · rw [hcall] at hc
    obtain ⟨hempty, hfree⟩ := hc
    obtain ⟨hu, hd⟩ := hf.backlog (h.lt_next (h.holds k hk).ne_ret) hempty
    exact h.release hk hfree hu hd
  · rw [hcall] at hc
    exact h.release hk hc (hu ▸ .nil) hd

theorem Inv.send (h : Inv serve Compat fails s) {bytes : List Byte} {next : Bool → Routine Unit}
    (hcall : s.call k = .send bytes next) (hb : s.broken = false) :
    Inv serve Compat fails { s.setCall k (next true) with up := s.up ++ tag k bytes } := by
  have hk : s.holder = some k := by
    apply h.holder_of_not_free
    rw [hcall]
    exact id
  rcases h.holds k hk with ⟨R, hc, hf⟩ | ⟨hc, hb', -⟩
  · rw [hcall] at hc
    obtain ⟨hempty, hreq, hnext, -⟩ := hc
    obtain ⟨hu, hd⟩ := hf.backlog (h.lt_next (h.holds k hk).ne_ret) hempty
    refine h.keep hk rfl rfl rfl rfl ?_
      (.await _ ?_ (.request s.up bytes hreq (fun _ => id) hu rfl hd))
    · intro hb'
      exact nomatch hb.symm.trans hb'
    · simpa [setCall] using hnext
  · rw [hb] at hb'
    exact nomatch hb'

/-- A write on a lost connection. -/
theorem Inv.sendLost (h : Inv serve Compat fails s) {bytes : List Byte}
    {next : Bool → Routine Unit} (hcall : s.call k = .send bytes next) (hb : s.broken = true)
    {ok : Bool} (hok : ok = false → fails (s.name k) = true) :
    Inv serve Compat fails (s.setCall k (next ok)) := by
  have hk : s.holder = some k := by
    apply h.holder_of_not_free
    rw [hcall]
    exact id
  obtain ⟨hu, hd⟩ := h.lost hb
  refine h.keep hk rfl rfl rfl rfl (fun _ => ⟨hu, hd⟩) ?_
  rcases h.holds k hk with ⟨R, hc, -⟩ | ⟨hc, -⟩
  · rw [hcall] at hc
    obtain ⟨-, -, hnext, hfail⟩ := hc
    cases ok with
    | true => exact .await _ (by simpa [setCall] using hnext) (.lost hb hu hd)
    | false => exact .broken (by simpa [setCall] using hfail (hok rfl)) hb hu hd
  · rw [hcall] at hc
    exact hc.elim

/-- A piece of the reply is read. -/
theorem Inv.recv (h : Inv serve Compat fails s) {n : ℕ}
    {next : Option (List Byte) → Routine Unit} (hcall : s.call k = .recv n next)
    (hn : n ≤ s.down.length) :
    Inv serve Compat fails
      { s.setCall k (next (some ((s.down.take n).map Prod.snd))) with down := s.down.drop n } := by
  have hk : s.holder = some k := by
    apply h.holder_of_not_free
    rw [hcall]
    exact id
  have hlost : s.broken = true → s.up = [] ∧ s.down.drop n = [] := by
    intro hb
    obtain ⟨hu, hd⟩ := h.lost hb
    exact ⟨hu, by rw [hd, List.drop_nil]⟩
  refine h.keep hk rfl rfl rfl rfl hlost ?_
  rcases h.holds k hk with ⟨R, hc, hf⟩ | ⟨hc, -⟩
  · rw [hcall] at hc
    obtain ⟨hzero, -, hpiece, -⟩ := hc
    by_cases hpos : 0 < n
    · have hlen : ((s.down.take n).map Prod.snd).length = n := by
        rw [List.length_map, List.length_take]
        omega
      -- something is there to be read, so it is the reply
      have hempty : s.down ≠ [] := by
        intro hnil
        rw [hnil, List.length_nil] at hn
        omega
      rcases hf with ⟨w, hw, hu, hd⟩ | ⟨before, bytes, hr, ha, hbl, hu, hd⟩ | ⟨hb, hu, hd⟩
      · have hR : R ((s.down.take n).map Prod.snd ++ w.drop n) := by
          rw [hd, tag_take, map_snd_tag, List.take_append_drop]
          exact hw
        refine .await (fun rest => R ((s.down.take n).map Prod.snd ++ rest)) ?_
          (.reply (w.drop n) hR hu ?_)
        · simpa [setCall] using hpiece hpos _ _ hlen hR
        · dsimp only
          rw [hd, tag_drop]
      · exact absurd hd hempty
      · exact absurd hd hempty
    · obtain rfl : n = 0 := Nat.eq_zero_of_not_pos hpos
      refine .await R (by simpa [setCall] using hzero rfl) ?_
      rcases hf with ⟨w, hw, hu, hd⟩ | ⟨before, bytes, hr, ha, hbl, hu, hd⟩ | ⟨hb, hu, hd⟩
      · exact .reply w hw hu hd
      · exact .request before bytes hr ha hbl hu hd
      · exact .lost hb hu hd
  · rw [hcall] at hc
    exact hc.elim

/-- The connection turns out to be lost. -/
theorem Inv.recvLost (h : Inv serve Compat fails s) {n : ℕ}
    {next : Option (List Byte) → Routine Unit} (hcall : s.call k = .recv n next)
    (hb : s.broken = true) : Inv serve Compat fails (s.setCall k (next none)) := by
  have hk : s.holder = some k := by
    apply h.holder_of_not_free
    rw [hcall]
    exact id
  obtain ⟨hu, hd⟩ := h.lost hb
  refine h.keep hk rfl rfl rfl rfl (fun _ => ⟨hu, hd⟩) ?_
  rcases h.holds k hk with ⟨R, hc, -⟩ | ⟨hc, -⟩
  · rw [hcall] at hc
    exact .broken (by simpa [setCall] using hc.2.2.2) hb hu hd
  · rw [hcall] at hc
    exact hc.elim

/-- Something other than the connection succeeds or fails. -/
theorem Inv.choose (h : Inv serve Compat fails s) {next : Bool → Routine Unit} {b : Bool}
    (hcall : s.call k = .choose next) (hb : b = false → s.holder ≠ some k) :
    Inv serve Compat fails (s.setCall k (next b)) := by
  have hlt : k < s.next := by
    apply h.lt_next
    rw [hcall]
    exact nofun
  by_cases hk : s.holder = some k
  · have hb : b = true := by
      cases b with
      | true => rfl
      | false => exact absurd hk (hb rfl)
    subst hb
    refine h.keep hk rfl rfl rfl rfl h.lost ?_
    rcases h.holds k hk with ⟨R, hc, hf⟩ | ⟨hc, -⟩
    · rw [hcall] at hc
      refine .await R (by simpa [setCall, Disciplined] using hc) ?_
      rcases hf with ⟨w, hw, hu, hd⟩ | ⟨before, bytes, hr, ha, hbl, hu, hd⟩ | ⟨hb, hu, hd⟩
      · exact .reply w hw hu hd
      · exact .request before bytes hr ha hbl hu hd
      · exact .lost hb hu hd
    · rw [hcall] at hc
      exact hc.elim
  · have hfree := h.others k hk
    rw [hcall] at hfree
    exact h.elsewhere hk hlt (hfree b)

/-- The connection is lost. -/
theorem Inv.lose (h : Inv serve Compat fails s) : Inv serve Compat fails s.lose := by
  refine ⟨h.started, h.others, fun _ => ⟨.nil, rfl⟩, fun _ => ⟨rfl, rfl⟩, fun k hk => ?_⟩
  rcases h.holds k hk with ⟨R, hc, -⟩ | ⟨hc, -⟩
  · exact .await R hc (.lost rfl rfl rfl)
  · exact .broken hc rfl rfl rfl

/-- The client gives the connection up. -/
theorem Inv.close (h : Inv serve Compat fails s) {next : Routine Unit}
    (hcall : s.call k = .close next) : Inv serve Compat fails (s.setCall k next).lose := by
  have hk : s.holder = some k := by
    apply h.holder_of_not_free
    rw [hcall]
    exact id
  refine h.keep hk rfl rfl rfl rfl (fun _ => ⟨rfl, rfl⟩) ?_
  rcases h.holds k hk with ⟨R, hc, -⟩ | ⟨hc, -⟩
  · rw [hcall] at hc
    exact .broken (by simpa [setCall, Shared.lose, Disciplined] using hc) rfl rfl rfl
  · rw [hcall] at hc
    exact .broken (by simpa [setCall, Shared.lose, Disciplined] using hc) rfl rfl rfl

/-- Another client changes the server. -/
theorem Inv.env (h : Inv serve Compat fails s) (r : σ) :
    Inv serve Compat fails { s with server := r } := by
  refine ⟨h.started, h.others, h.quiet, h.lost, fun k hk => ?_⟩
  rcases h.holds k hk with ⟨R, hc, hf⟩ | ⟨hc, hb, hu, hd⟩
  · refine .await R hc ?_
    rcases hf with ⟨w, hw, hu, hd⟩ | ⟨before, bytes, hr, ha, hbl, hu, hd⟩ | ⟨hb, hu, hd⟩
    · exact .reply w hw hu hd
    · exact .request before bytes hr ha hbl hu hd
    · exact .lost hb hu hd
  · exact .broken hc hb hu hd

/-- The server takes the request that is first in line. -/
theorem serveOne_of_up {j : ℕ} {bytes : List Byte} (rest : List (ℕ × Byte))
    (hr : IsRequest serve (Compat (s.name j)) bytes) (hu : s.up = tag j bytes ++ rest)
    (hready : s.Ready Compat) :
    ∃ r reply, Answers serve (Compat (s.name j)) bytes reply ∧
      s.serveOne serve = some { s with server := r, up := rest, down := s.down ++ tag j reply } := by
  have hmap : s.up.map Prod.snd = bytes ++ rest.map Prod.snd := by
    rw [hu, List.map_append, map_snd_tag]
  obtain ⟨b, bs, hbytes⟩ : ∃ b bs, bytes = b :: bs := List.exists_cons_of_ne_nil hr.1
  have hcons : s.up = (j, b) :: (tag j bs ++ rest) := by
    rw [hu, hbytes]
    rfl
  have hc : Compat (s.name j) s.server := hready j b _ hcons
  obtain ⟨r, reply, hserve⟩ := hr.2 s.server (rest.map Prod.snd) hc
  refine ⟨r, reply, ⟨s.server, r, _, hc, hserve⟩, ?_⟩
  have hdrop : s.up.drop (s.up.length - (rest.map Prod.snd).length) = rest := by
    rw [hu]
    apply List.drop_left'
    rw [List.length_append, List.length_map]
    omega
  unfold serveOne
  split
  case h_1 hnil => exact nomatch hnil.symm.trans hcons
  case h_2 j' b' l hl =>
    have hj : j' = j := congrArg Prod.fst (List.cons.inj (hl.symm.trans hcons)).1
    rw [hmap, hserve, Option.map_some]
    dsimp only
    rw [hdrop, hj]

/-- A request without a reply leaves nothing. -/
theorem Backlog.serveOne (h : Backlog serve Compat s.name s.next s.up)
    (hc : s.Ready Compat) (hs : s.serveOne serve = some t) :
    ∃ r rest, Backlog serve Compat s.name s.next rest ∧ t = { s with server := r, up := rest } := by
  generalize hup : s.up = up at h
  cases h with
  | nil => simp [Shared.serveOne, hup] at hs
  | @cons bytes rest j _ hr hsilent htail =>
      obtain ⟨r, reply, hans, heq⟩ := serveOne_of_up rest hr hup hc
      refine ⟨r, rest, htail, ?_⟩
      rw [heq, hsilent reply hans] at hs
      simpa using hs.symm

theorem Inv.serveOne (h : Inv serve Compat fails s) (hc : s.Ready Compat)
    (hs : s.serveOne serve = some t) : Inv serve Compat fails t := by
  have hup : s.up ≠ [] := by
    intro hnil
    simp [Shared.serveOne, hnil] at hs
  have hb : s.broken ≠ true := fun hb => hup (h.lost hb).1
  have silent : Backlog serve Compat s.name s.next s.up →
      (∀ k, s.holder = some k → ∃ R w, Disciplined serve (Compat (s.name k)) (fails (s.name k)) (.await R)
        (s.call k) ∧ R w ∧ s.down = tag k w) → Inv serve Compat fails t := by
    intro hbl hholder
    obtain ⟨r, rest, htail, rfl⟩ := hbl.serveOne hc hs
    refine ⟨h.started, h.others, fun hn => ⟨htail, (h.quiet hn).2⟩, fun hb' => absurd hb' hb, ?_⟩
    intro k hk
    obtain ⟨R, w, hcall, hw, hd⟩ := hholder k hk
    exact .await R hcall (.reply w hw htail hd)
  cases hholder : s.holder with
  | none => exact silent (h.quiet hholder).1 fun k hk => nomatch hholder.symm.trans hk
  | some k =>
      rcases h.holds k hholder with ⟨R, hcall, hf⟩ | ⟨-, hb', -⟩
      · rcases hf with ⟨w, hw, hu, hd⟩ | ⟨before, bytes, hr, ha, hbl, hu, hd⟩ | ⟨hb', -⟩
        · refine silent hu fun j hj => ?_
          cases hholder.symm.trans hj
          exact ⟨R, w, hcall, hw, hd⟩
        · cases hbl with
          | nil =>
              -- the request of the call that has the lock
              obtain ⟨r, reply, hans, heq⟩ := serveOne_of_up [] hr (by simpa using hu) hc
              rw [heq] at hs
              cases hs
              have hsome : s.holder ≠ none := by
                rw [hholder]
                exact nofun
              refine ⟨h.started, h.others, fun hn => absurd hn hsome,
                fun hb' => absurd hb' hb, fun j hj => ?_⟩
              cases hholder.symm.trans hj
              refine .await R hcall (.reply reply (ha reply hans) .nil ?_)
              dsimp only
              rw [hd, List.nil_append]
          | @cons bytes' rest j _ hr' hsilent htail =>
              obtain ⟨r, reply, hans, heq⟩ := serveOne_of_up
                (rest ++ tag k bytes) hr' (by rw [hu, List.append_assoc]) hc
              rw [heq, hsilent reply hans] at hs
              cases hs
              have hsome : s.holder ≠ none := by
                rw [hholder]
                exact nofun
              refine ⟨h.started, h.others, fun hn => absurd hn hsome,
                fun hb' => absurd hb' hb, fun j hj => ?_⟩
              cases hholder.symm.trans hj
              refine .await R hcall (.request rest bytes hr ha htail rfl ?_)
              dsimp only
              rw [hd, tag_nil, List.append_nil]
        · exact absurd hb' hb
      · exact absurd hb' hb

/-! ### Every run -/

/-- **One step** keeps the invariant. -/
theorem Inv.step {Good : ι → Prop} (h : Inv serve Compat fails s)
    (hprog : ∀ c, Good c → Disciplined serve (Compat c) (fails c) .free (prog c)) {a : Act ι σ}
    (ha : Orderly Compat fails Good s a) (hs : step serve prog s a = some t) :
    Inv serve Compat fails t := by
  cases a with
  | start c =>
      cases hs
      exact h.start c (hprog c ha)
  | lock k =>
      cases hcall : s.call k with
      | lock next =>
          simp only [Shared.step, hcall, Option.ite_none_right_eq_some, Option.some.injEq] at hs
          obtain ⟨hnone, rfl⟩ := hs
          exact h.lock hcall hnone
      | _ => simp [Shared.step, hcall] at hs
  | unlock k =>
      cases hcall : s.call k with
      | unlock next =>
          simp only [Shared.step, hcall, Option.some.injEq] at hs
          subst hs
          exact h.unlock hcall
      | _ => simp [Shared.step, hcall] at hs
  | send k ok =>
      cases hcall : s.call k with
      | send bytes next =>
          cases hb : s.broken with
          | true =>
              simp only [Shared.step, hcall, hb, if_true, Option.some.injEq] at hs
              subst hs
              refine h.sendLost hcall hb fun hok => ?_
              subst hok
              exact ha
          | false =>
              cases ok with
              | true =>
                  simp only [Shared.step, hcall, hb, Bool.false_eq_true, if_false, if_true,
                    Option.some.injEq] at hs
                  subst hs
                  exact h.send hcall hb
              | false => simp [Shared.step, hcall, hb] at hs
      | _ => simp [Shared.step, hcall] at hs
  | recv k ok =>
      cases hcall : s.call k with
      | recv n next =>
          cases ok with
          | true =>
              simp only [Shared.step, hcall, if_true, Option.ite_none_right_eq_some,
                Option.some.injEq] at hs
              obtain ⟨hn, rfl⟩ := hs
              exact h.recv hcall hn
          | false =>
              simp only [Shared.step, hcall, Bool.false_eq_true, if_false,
                Option.ite_none_right_eq_some, Option.some.injEq] at hs
              obtain ⟨hb, rfl⟩ := hs
              exact h.recvLost hcall hb
      | _ => simp [Shared.step, hcall] at hs
  | choose k b =>
      cases hcall : s.call k with
      | choose next =>
          simp only [Shared.step, hcall, Option.some.injEq] at hs
          subst hs
          refine h.choose hcall fun hb => ?_
          subst hb
          exact ha
      | _ => simp [Shared.step, hcall] at hs
  | close k =>
      cases hcall : s.call k with
      | close next =>
          simp only [Shared.step, hcall, Option.some.injEq] at hs
          subst hs
          exact h.close hcall
      | _ => simp [Shared.step, hcall] at hs
  | serve => exact h.serveOne ha hs
  | env r =>
      cases hs
      exact h.env r
  | lose =>
      cases hs
      exact h.lose

/-- **Every run** of disciplined routines keeps the invariant. -/
theorem Inv.reach {Good : ι → Prop}
    (hprog : ∀ c, Good c → Disciplined serve (Compat c) (fails c) .free (prog c))
    (h : (machine serve prog).Reach (Orderly Compat fails Good) s) : Inv serve Compat fails s := by
  refine h.invariant ?_ ?_
  · rintro _ ⟨c, r, rfl⟩
    exact inv_initial c r
  · intro s t a hinv ha hs
    exact hinv.step hprog ha hs

/-- Whoever reads or writes has the lock. -/
theorem Inv.holds_of_recv (h : Inv serve Compat fails s) {n : ℕ}
    {next : Option (List Byte) → Routine Unit} (hcall : s.call k = .recv n next) :
    s.holder = some k := by
  apply h.holder_of_not_free
  rw [hcall]
  exact id

/-- **A call reads bytes of its own reply only.** -/
theorem Inv.reads_own_reply (h : Inv serve Compat fails s) {x : ℕ × Byte} (hx : x ∈ s.down) :
    s.holder = some x.1 := by
  cases hholder : s.holder with
  | none =>
      rw [(h.quiet hholder).2] at hx
      exact nomatch hx
  | some k =>
      rcases h.holds k hholder with ⟨R, -, hf⟩ | ⟨-, -, -, hd⟩
      · rcases hf with ⟨w, -, -, hd⟩ | ⟨before, bytes, -, -, -, -, hd⟩ | ⟨-, -, hd⟩
        · rw [hd] at hx
          rw [fst_of_mem_tag hx]
        · rw [hd] at hx
          exact nomatch hx
        · rw [hd] at hx
          exact nomatch hx
      · rw [hd] at hx
        exact nomatch hx

/-- **A call that has returned does not have the lock**, and none of its reply is left. -/
theorem Inv.lock_free (h : Inv serve Compat fails s) (hret : s.call k = .ret ()) :
    s.holder ≠ some k ∧ ∀ x ∈ s.down, x.1 ≠ k := by
  have hk : s.holder ≠ some k := fun hk => (h.holds k hk).ne_ret hret
  refine ⟨hk, fun x hx => ?_⟩
  rintro rfl
  exact hk (h.reads_own_reply hx)

end Shared

end Exchange
