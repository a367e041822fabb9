import EventTransfer.JavaGetting

/-!
# The reply to a request for events

`netEvsGet` of the Java server announces the number of bytes that follow, and collects headers
and data in a buffer of 65535 bytes (`javaEventsReply`).  It takes a header for 48 bytes, but
writes 60, in what it announces and in the test whether the buffer has room for the next event.

* `GetReplyRight` — the reply is complete, with the right number of bytes announced, nothing is
  written behind the end of the buffer, and both clients read the events back.
* `getReply_right_iff` — no reply with an event in it announces the right number; all else is
  right exactly when the events can be read and their headers have room in the buffer, and the
  Java client can take them.
-/

namespace EventTransfer

open Wire Exchange

variable {τ : Type}

/-! ## The number of bytes -/

/-- The bytes of the events, one event after the other. -/
def javaBody (m : Memory τ) (ids : List Word) : List Byte :=
  ids.flatMap fun id => (m.event id).javaBytes id

theorem length_javaBody (m : Memory τ) (ids : List Word) :
    (javaBody m ids).length =
      ids.length * 60 + (ids.map fun id => (m.event id).length.toNat).sum := by
  induction ids with
  | nil => rfl
  | cons id ids ih =>
      show ((m.event id).javaBytes id ++ javaBody m ids).length = _
      rw [List.length_append, length_javaBytes, ih, List.map_cons, List.sum_cons,
        List.length_cons]
      ring

theorem sum_map_le {α : Type} {xs : List α} {f : α → ℕ} {n : ℕ} (h : ∀ x ∈ xs, f x ≤ n) :
    (xs.map f).sum ≤ xs.length * n := by
  rw [← List.length_map f, ← smul_eq_mul]
  exact List.sum_le_card_nsmul _ _ (List.forall_mem_map.mpr h)

/-- An `int` made a `long`. -/
theorem toNat_signExtend_ofNat (n : ℕ) :
    ((BitVec.ofNat 32 n).signExtend 64).toNat = n % 2 ^ 32 ∨
      2 ^ 63 ≤ ((BitVec.ofNat 32 n).signExtend 64).toNat := by
  have hle : (BitVec.ofNat 32 n).toNat = n % 2 ^ 32 := BitVec.toNat_ofNat n 32
  rw [BitVec.toNat_signExtend, BitVec.toNat_setWidth, BitVec.msb_eq_decide, hle,
    Nat.mod_eq_of_lt (by omega)]
  by_cases hneg : 2 ^ (32 - 1) ≤ n % 2 ^ 32
  · rw [decide_eq_true hneg]
    right
    simp only [if_true]
    omega
  · rw [decide_eq_false hneg]
    left
    rfl

/-- The numbers of bytes, with a header of 60 bytes and with one of 48. -/
theorem eq_zero_of_announced {n sum : ℕ} (hn : n < 2 ^ 31) (hsum : sum ≤ n * 2 ^ 31)
    (h : n * 60 + sum = (n * javaHeaderSize + sum) % 2 ^ 32 ∨ 2 ^ 63 ≤ n * 60 + sum) : n = 0 := by
  rcases h with h | h
  · have hle := h.le.trans (Nat.mod_le _ _)
    rw [javaHeaderSize] at hle
    clear h
    omega
  · omega

/-- **No reply with an event in it announces the right number**: it is too small, or it is none,
where the sum as an `int` is negative. -/
theorem javaTotal_eq_iff {m : Memory τ} {ids : Places}
    (hlen : ∀ id ∈ ids.1, (m.event id).length.toNat < 2 ^ 31) :
    (javaTotal (ids.1.map m.event)).toNat = (javaBody m ids.1).length ↔ ids.1 = [] := by
  constructor
  · intro heq
    have hcount : ids.1.length < 2 ^ 31 := ids.2
    have hsum : (ids.1.map fun id => (m.event id).length.toNat).sum ≤ ids.1.length * 2 ^ 31 :=
      sum_map_le fun id hid => (hlen id hid).le
    have hmap : ((ids.1.map m.event).map fun e => e.length.toNat) =
        ids.1.map fun id => (m.event id).length.toNat := List.map_map
    have htotal := toNat_signExtend_ofNat (ids.1.length * javaHeaderSize +
      (ids.1.map fun id => (m.event id).length.toNat).sum)
    rw [length_javaBody, javaTotal, hmap, List.length_map] at heq
    rw [heq] at htotal
    exact List.length_eq_zero_iff.mp (eq_zero_of_announced hcount hsum htotal)
  · intro hnil
    rw [hnil]
    rfl

/-! ## Both clients -/

/-- **A client reads the reply**: the number of events, the number of bytes, which it does not
look at, and the events. -/
def readGetReply (events : ℕ → Routine (Except Word (List ClientEvent))) :
    Routine (Except Word (List ClientEvent)) :=
  .recv 4 fun
    | none => .unlock (.ret (.error etErrorRead))
    | some piece => .recv 8 fun
        | none => .unlock (.ret (.error etErrorRead))
        | some _ => events (ntohl piece).toNat

/-- The client of `et_remote.c`. -/
def remoteReads (big : Bool) (modify : Word) : Routine (Except Word (List ClientEvent)) :=
  readGetReply fun nevents => recvEvents big modify nevents []

/-- The Java client. -/
def javaReads (modify : Word) : Routine (Except Word (List ClientEvent)) :=
  readGetReply fun nevents => javaRecvEvents modify nevents []

/-- **The reply is complete and in bounds, and is read back**, whatever is announced in it: the
server has no exception and has written the number of events, eight bytes and the events one
after the other; a client of either kind has these events when it has read the reply. -/
structure ReplySurvives (size : ArraySize) (big : Bool) (modify : Word) (m : Memory τ)
    (ids : Places) : Prop where
  written : javaEventsReply size ids.1 m.event =
    (true, putWords [BitVec.ofNat 32 ids.1.length, highInt (javaTotal (ids.1.map m.event)),
      lowInt (javaTotal (ids.1.map m.event))] ++ javaBody m ids.1)
  remote : ∀ (serve : Server (Option (Memory τ))) s,
    converse serve (remoteReads big modify) ⟨s, [], (javaEventsReply size ids.1 m.event).2⟩ =
      some (.ok ((m.toClient big).views modify ids.1), .quiet s)
  java : ∀ (serve : Server (Option (Memory τ))) s,
    converse serve (javaReads modify) ⟨s, [], (javaEventsReply size ids.1 m.event).2⟩ =
      some (.ok (m.views modify ids.1), .quiet s)

/-- **The reply is right**: moreover it announces the number of bytes that follow. -/
structure GetReplyRight (size : ArraySize) (big : Bool) (modify : Word) (m : Memory τ)
    (ids : Places) : Prop extends ReplySurvives size big modify m ids where
  total : (javaTotal (ids.1.map m.event)).toNat = (javaBody m ids.1).length

section

variable {size : ArraySize} {big : Bool} {modify : Word} {m : Memory τ} {ids : Places}

theorem eventsBytes_toClient (big : Bool) (m : Memory τ) (ids : List Word) :
    Local.eventsBytes big (m.toClient big) ids = javaBody m ids := by
  unfold Local.eventsBytes javaBody
  simp only [MemEvent.javaBytes_eq big]
  rfl

/-- What is written when there is no exception. -/
theorem javaEventsReply_sendable (hsend : m.Sendable ids.1 size) :
    javaEventsReply size ids.1 m.event =
      (true, putWords [BitVec.ofNat 32 ids.1.length, highInt (javaTotal (ids.1.map m.event)),
        lowInt (javaTotal (ids.1.map m.event))] ++ javaBody m ids.1) := by
  have htrue := (javaEventsReply_iff size m ids.1).mpr hsend
  have hbytes := javaEventsReply_eq hsend false
  rw [eventsBytes_toClient, ← List.append_assoc, ← putWords_append] at hbytes
  exact Prod.ext htrue hbytes

/-- The head of the reply is read. -/
theorem converse_readGetReply {serve : Server (Option (Memory τ))} {s : Option (Memory τ)}
    {events : ℕ → Routine (Except Word (List ClientEvent))} (hi lo : Word) (body : List Byte) :
    converse serve (readGetReply events)
        ⟨s, [], putWords [BitVec.ofNat 32 ids.1.length, hi, lo] ++ body⟩ =
      converse serve (events ids.1.length) ⟨s, [], body⟩ := by
  have hlen : (BitVec.ofNat 32 ids.1.length).toNat = ids.1.length := by
    have hlt : ids.1.length < 2 ^ 31 := ids.2
    rw [BitVec.toNat_ofNat]
    omega
  have hpiece : (putWords [hi, lo]).length = 8 := length_putWords _
  rw [readGetReply, putWords_cons, List.append_assoc, converse_recv (length_htonl _)]
  dsimp only
  rw [converse_recv hpiece, ntohl_htonl, hlen]

/-- **Exactly when a reply survives.** -/
theorem replySurvives_iff (hsize : m.JavaSized) :
    ReplySurvives size big modify m ids ↔
      m.Sendable ids.1 size ∧ ∀ id ∈ ids.1, (m.event id).Takeable := by
  constructor
  · intro h
    have hsend : m.Sendable ids.1 size := by
      rw [← javaEventsReply_iff, h.written]
    have hlengths : ∀ id ∈ ids.1, (m.event id).length.toNat < 2 ^ 31 :=
      fun id hid => hsend.2.lt (List.mem_map_of_mem hid)
    refine ⟨hsend, ?_⟩
    by_contra hrefuse
    push Not at hrefuse
    have hjava := h.java (fun _ _ => none) none
    rw [h.written, javaReads, converse_readGetReply, ← eventsBytes_toClient true] at hjava
    exact converse_javaRecvEvents_refused ids.1 [] hlengths hrefuse _ _ hjava
  · rintro ⟨hsend, htake⟩
    have hlengths : ∀ id ∈ ids.1, (m.event id).length.toNat < 2 ^ 31 :=
      fun id hid => hsend.2.lt (List.mem_map_of_mem hid)
    refine ⟨javaEventsReply_sendable hsend, fun serve s => ?_, fun serve s => ?_⟩
    · rw [javaEventsReply_sendable hsend, remoteReads, converse_readGetReply,
        ← eventsBytes_toClient big]
      exact converse_recvEvents ids.1 [] hlengths
    · rw [javaEventsReply_sendable hsend, javaReads, converse_readGetReply,
        ← eventsBytes_toClient true]
      exact converse_javaRecvEvents hsize ids.1 [] hlengths htake

/-- **When the reply is right**: never, if there is an event in it; and all but the number of
bytes is right exactly when the server can read the events, their headers have room in the
buffer, and the Java client can take the events. -/
theorem getReply_right_iff (hsize : m.JavaSized) :
    (GetReplyRight size big modify m ids ↔ ids.1 = []) ∧
      (ReplySurvives size big modify m ids ↔
        m.Sendable ids.1 size ∧ ∀ id ∈ ids.1, (m.event id).Takeable) := by
  refine ⟨?_, replySurvives_iff hsize⟩
  constructor
  · intro h
    have hsend := ((replySurvives_iff hsize).mp h.toReplySurvives).1
    exact (javaTotal_eq_iff fun id hid => hsend.2.lt (List.mem_map_of_mem hid)).mp h.total
  · intro hnil
    have hnone : ∀ id, id ∉ ids.1 := by
      intro id
      rw [hnil]
      exact List.not_mem_nil
    have hsend : m.Sendable ids.1 size := by
      refine ⟨fun id hid => absurd hid (hnone id), ?_⟩
      rw [hnil]
      trivial
    exact ⟨(replySurvives_iff hsize).mpr ⟨hsend, fun id hid => absurd hid (hnone id)⟩,
      (javaTotal_eq_iff fun id hid => absurd hid (hnone id)).mpr hnil⟩

end

/-- A system with one event of 65415 bytes, at place 0, and events without data. -/
def Memory.longFirst : Memory Unit where
  sys := ()
  event place :=
    { MemEvent.blank with
      length := if place = 0 then 65415 else 0
      memsize := 70000
      byteorder := 0x04030201 }

theorem Memory.javaSized_longFirst : Memory.longFirst.JavaSized := by
  intro place
  show (70000 : BitVec 64).toNat < 2 ^ 31
  decide

theorem Memory.readable_longFirst (place : Word) :
    (Memory.longFirst.event place).Readable ⟨70000, by decide⟩ := by
  refine ⟨show (0 : BitVec 2) ≠ 3 by decide, ?_⟩
  show (if place = 0 then 65415 else 0 : BitVec 64).toNat ≤ 70000
  split_ifs <;> decide

theorem Memory.takeable_longFirst (place : Word) : (Memory.longFirst.event place).Takeable := by
  refine ⟨?_, .inl rfl⟩
  rw [javaInt_of_lt (Memory.javaSized_longFirst place)]
  exact Int.ofNat_le.mpr (Memory.readable_longFirst place).2

/-- Two events without data. -/
theorem getReply_right_example :
    ReplySurvives ⟨70000, by decide⟩ false 0 Memory.longFirst ⟨[1, 2], by decide⟩ :=
  (getReply_right_iff Memory.javaSized_longFirst).2.mpr
    ⟨⟨fun place _ => Memory.readable_longFirst place, by decide⟩,
      fun place _ => Memory.takeable_longFirst place⟩

/-- **48 bytes are announced for an event without data, and 60 follow**; and behind an event of
65415 bytes there is no room for a header in the buffer. -/
theorem getReply_not_right :
    ¬ GetReplyRight ⟨70000, by decide⟩ false 0 Memory.longFirst ⟨[1], by decide⟩ ∧
      ¬ ReplySurvives ⟨70000, by decide⟩ false 0 Memory.longFirst ⟨[0, 1], by decide⟩ := by
  constructor
  · intro h
    have htotal := h.total
    rw [length_javaBody] at htotal
    exact absurd htotal (by decide)
  · intro h
    have hfits := ((replySurvives_iff Memory.javaSized_longFirst).mp h).1.2
    exact absurd hfits (by decide)

end EventTransfer
