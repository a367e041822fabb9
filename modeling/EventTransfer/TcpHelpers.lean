import EventTransfer.Lib.Wire

/-!
# The TCP helpers

`codanetTcpWritev`, `codanetTcpWrite`, `codanetTcpRead` and `codanetTcpRead3iNB` call `writev`,
`write` and `read` until all bytes are through.  What the operating system does is a sequence of
answers (`OsAnswer`), one for each call: the socket takes or has so many bytes, and of those asked
for all or as many as there are; or the call fails.  A helper that has no result yet waits for
the next answer.

A stream is the list of its bytes.  `errno` is carried along, since it keeps its value where a
call does not fail.

* `write_moved`, `read_moved` — all bytes, in their order, or a failure.
* `writev_moved_iff` — `codanetTcpWritev` goes on with the next buffers whatever number of bytes
  `writev` has taken.  It is right where each call takes all that it is given.
* `read3i_right_iff` — `codanetTcpRead3iNB` puts its integers together from characters, which
  bring their signs along.
* `tcp_helpers_iff` — all of this, and that the helpers end.
-/

namespace EventTransfer

open Wire

/-- The values of `errno` that are looked at. -/
inductive Errno
  | eintr
  | ewouldblock
  | other
  deriving DecidableEq, Repr

/-- **What the operating system answers to a call**: the socket takes or has `k` bytes (none at
all at the end of a file), or the call fails. -/
inductive OsAnswer
  | count (k : ℕ)
  | failed (errno : Errno)
  deriving DecidableEq, Repr

/-- Bytes are moved. -/
def OsAnswer.moves : OsAnswer → Bool
  | count k => 0 < k
  | failed _ => false

/-! ### The helpers -/

/-- A number of bytes in an `int`. -/
def cInt (n : ℕ) : ℤ := Int.bmod n (2 ^ 32)

/-- The number of bytes to be sent, as `codanetTcpWritev` adds it up. -/
def iovBytes (iov : List (List Byte)) : ℤ :=
  iov.foldl (fun nbytes buf => Int.bmod (nbytes + buf.length) (2 ^ 32)) 0

/-- The loop of `codanetTcpWritev`, with the buffers that are left. -/
def tcpWritevLoop (iovMax : ℕ) (nbytes : ℤ) :
    Errno → List (List Byte) → List OsAnswer → List Byte → Option (ℤ × List Byte)
  | _, [], _, sent => some (nbytes, sent)
  | _, _ :: _, [], _ => none
  | errno, buf :: bufs, .count k :: answers, sent =>
      let iovp := ((buf :: bufs).take iovMax).flatten
      let cc := cInt (min k iovp.length)
      if cc = -1 then
        -- `errno` is that of an earlier call
        if errno = .ewouldblock then
          tcpWritevLoop iovMax nbytes errno (buf :: bufs) answers (sent ++ iovp.take k)
        else some (-1, sent ++ iovp.take k)
      else tcpWritevLoop iovMax nbytes errno ((buf :: bufs).drop iovMax) answers (sent ++ iovp.take k)
  | _, buf :: bufs, .failed errno :: answers, sent =>
      if errno = .ewouldblock then tcpWritevLoop iovMax nbytes errno (buf :: bufs) answers sent
      else some (-1, sent)

/-- **`codanetTcpWritev`**: its value, and the bytes on the stream. -/
def codanetTcpWritev (iovMax : ℕ) (errno : Errno) (iov : List (List Byte))
    (answers : List OsAnswer) : Option (ℤ × List Byte) :=
  tcpWritevLoop iovMax (iovBytes iov) errno iov answers []

/-- The loop of `codanetTcpWrite`, with the bytes that are left. -/
def tcpWriteLoop (n : ℤ) : Errno → List Byte → List OsAnswer → List Byte → Option (ℤ × List Byte)
  | _, [], _, sent => some (n, sent)
  | _, _ :: _, [], _ => none
  | errno, b :: ptr, .count k :: answers, sent =>
      if k = 0 then
        if errno = .eintr then tcpWriteLoop n errno (b :: ptr) answers sent else some (0, sent)
      else tcpWriteLoop n errno ((b :: ptr).drop k) answers (sent ++ (b :: ptr).take k)
  | _, b :: ptr, .failed errno :: answers, sent =>
      if errno = .eintr then tcpWriteLoop n errno (b :: ptr) answers sent else some (-1, sent)

/-- **`codanetTcpWrite`**: its value, and the bytes on the stream. -/
def codanetTcpWrite (errno : Errno) (vptr : List Byte) (answers : List OsAnswer) :
    Option (ℤ × List Byte) :=
  tcpWriteLoop vptr.length errno vptr answers []

/-- What `read` puts into a buffer of `nleft` bytes. -/
def readSome (k nleft : ℕ) (input : List Byte) : List Byte := input.take (min k nleft)

/-- The loop of `codanetTcpRead`, with the number of bytes that are left. -/
def tcpReadLoop (n : ℕ) : ℕ → List OsAnswer → List Byte → List Byte →
    Option (ℤ × List Byte × List Byte)
  | 0, _, input, buf => some (n, buf, input)
  | _ + 1, [], _, _ => none
  | nleft + 1, .count k :: answers, input, buf =>
      let got := readSome k (nleft + 1) input
      if got.length = 0 then some (n - (nleft + 1), buf, input)
      else tcpReadLoop n (nleft + 1 - got.length) answers (input.drop got.length) (buf ++ got)
  | nleft + 1, .failed errno :: answers, input, buf =>
      if errno = .eintr then tcpReadLoop n (nleft + 1) answers input buf else some (-1, buf, input)

/-- **`codanetTcpRead`**: its value, the bytes in the buffer, and what is left of the stream. -/
def codanetTcpRead (n : ℕ) (answers : List OsAnswer) (input : List Byte) :
    Option (ℤ × List Byte × List Byte) :=
  tcpReadLoop n n answers input []

/-- The loop of `codanetTcpRead3iNB`: the buffer, or `CODA_ERROR`. -/
def tcpRead3iLoop : ℕ → ℕ → List OsAnswer → List Byte → List Byte → Option (Option (List Byte))
  | _, 0, _, _, buf => some (some buf)
  | 0, _ + 1, _, _, _ => some none
  | _ + 1, _ + 1, [], _, _ => none
  | loops + 1, nleft + 1, .count k :: answers, input, buf =>
      let nread := readSome k (nleft + 1) input
      if nread.length = 0 then some none
      else
        tcpRead3iLoop loops (nleft + 1 - nread.length) answers (input.drop nread.length) (buf ++ nread)
  | loops + 1, nleft + 1, .failed errno :: answers, input, buf =>
      if errno ≠ .ewouldblock then some none else tcpRead3iLoop loops (nleft + 1) answers input buf

/-- A `char` in an expression.  Whether characters have signs is the compiler's choice. -/
def promote (charSigned : Bool) (c : Byte) : Word :=
  if charSigned then c.signExtend 32 else c.setWidth 32

/-- Four characters of the buffer, put together. -/
def intOfChars (charSigned : Bool) (buf : List Byte) : Word :=
  let c i := promote charSigned (buf.getD i 0)
  c 0 <<< 24 ||| c 1 <<< 16 ||| c 2 <<< 8 ||| c 3

/-- **`codanetTcpRead3iNB`**: the three integers, or `CODA_ERROR`. -/
def codanetTcpRead3iNB (charSigned : Bool) (answers : List OsAnswer) (input : List Byte) :
    Option (Option (List Word)) :=
  (tcpRead3iLoop 10 12 answers input []).map fun r => r.map fun buf =>
    [intOfChars charSigned buf, intOfChars charSigned (buf.drop 4),
      intOfChars charSigned (buf.drop 8)]

/-! ### Writing from one buffer -/

section Write

variable {n : ℤ} {errno : Errno} {answers : List OsAnswer} {ptr sent sent' : List Byte} {ret : ℤ}

/-- What is on the stream at the end is what was there, and bytes from the front of the buffer. -/
theorem tcpWriteLoop_sent (h : tcpWriteLoop n errno ptr answers sent = some (ret, sent')) :
    ret = n ∧ sent' = sent ++ ptr ∨ ret = 0 ∧ ptr ≠ [] ∨ ret = -1 := by
  induction answers generalizing errno ptr sent with
  | nil =>
      cases ptr with
      | nil =>
          obtain ⟨rfl, rfl⟩ := Prod.mk.inj (Option.some.inj h)
          exact .inl ⟨rfl, (List.append_nil _).symm⟩
      | cons b ptr => cases h
  | cons answer answers ih =>
      cases ptr with
      | nil =>
          obtain ⟨rfl, rfl⟩ := Prod.mk.inj (Option.some.inj h)
          exact .inl ⟨rfl, (List.append_nil _).symm⟩
      | cons b ptr =>
          cases answer with
          | count k =>
              rw [tcpWriteLoop] at h
              split at h
              case isTrue =>
                split at h
                case isTrue => exact ih h
                case isFalse =>
                  obtain ⟨rfl, rfl⟩ := Prod.mk.inj (Option.some.inj h)
                  exact .inr (.inl ⟨rfl, List.cons_ne_nil b ptr⟩)
              case isFalse =>
                rcases ih h with ⟨hret, hsent⟩ | ⟨hret, -⟩ | hret
                · rw [List.append_assoc, List.take_append_drop] at hsent
                  exact .inl ⟨hret, hsent⟩
                · exact .inr (.inl ⟨hret, List.cons_ne_nil b ptr⟩)
                · exact .inr (.inr hret)
          | failed errno =>
              rw [tcpWriteLoop] at h
              split at h
              case isTrue => exact ih h
              case isFalse =>
                obtain ⟨rfl, rfl⟩ := Prod.mk.inj (Option.some.inj h)
                exact .inr (.inr rfl)

/-- **`codanetTcpWrite` moves all bytes or reports failure**, by a value that is not the number of
bytes. -/
theorem write_moved {vptr : List Byte}
    (h : codanetTcpWrite errno vptr answers = some (ret, sent)) :
    ret = vptr.length ∧ sent = vptr ∨ ret ≠ vptr.length := by
  rcases tcpWriteLoop_sent h with ⟨hret, hsent⟩ | ⟨hret, hne⟩ | hret
  · exact .inl ⟨hret, hsent⟩
  · have hpos : 0 < vptr.length := List.length_pos_of_ne_nil hne
    exact .inr (by omega)
  · exact .inr (by omega)

/-- It ends as soon as the socket has taken often enough. -/
theorem tcpWriteLoop_isSome (hmoves : ptr.length ≤ answers.countP OsAnswer.moves) :
    (tcpWriteLoop n errno ptr answers sent).isSome := by
  induction answers generalizing errno ptr sent with
  | nil =>
      obtain rfl := List.length_eq_zero_iff.mp (Nat.le_zero.mp hmoves)
      rfl
  | cons answer answers ih =>
      cases ptr with
      | nil => rfl
      | cons b ptr =>
          cases answer with
          | count k =>
              rw [tcpWriteLoop]
              by_cases hk : k = 0
              · subst hk
                rw [if_pos rfl]
                split
                case isTrue => exact ih hmoves
                case isFalse => rfl
              · rw [if_neg hk]
                refine ih ?_
                rw [List.countP_cons_of_pos (by simpa [OsAnswer.moves] using Nat.pos_of_ne_zero hk)]
                  at hmoves
                rw [List.length_drop]
                omega
          | failed errno =>
              rw [tcpWriteLoop]
              split
              case isTrue => exact ih hmoves
              case isFalse => rfl

end Write

/-! ### Reading into one buffer -/

section Read

variable {n nleft : ℕ} {answers : List OsAnswer} {input buf buf' rest : List Byte} {ret : ℤ}

theorem length_readSome_le (k nleft : ℕ) (input : List Byte) :
    (readSome k nleft input).length ≤ nleft := by
  rw [readSome, List.length_take]
  omega

/-- What `read` has put into the buffer comes from the front of the stream. -/
theorem readSome_append_drop (k nleft : ℕ) (input : List Byte) :
    readSome k nleft input ++ input.drop (readSome k nleft input).length = input := by
  rw [readSome, List.length_take]
  by_cases hle : min k nleft ≤ input.length
  · rw [min_eq_left hle, List.take_append_drop]
  · rw [min_eq_right (Nat.le_of_not_le hle), List.drop_length,
      List.take_of_length_le (Nat.le_of_not_le hle), List.append_nil]

theorem tcpReadLoop_buf (hle : nleft ≤ n) (hret : ret = n)
    (h : tcpReadLoop n nleft answers input buf = some (ret, buf', rest)) :
    ∃ got, got.length = nleft ∧ input = got ++ rest ∧ buf' = buf ++ got := by
  subst hret
  induction answers generalizing nleft input buf with
  | nil =>
      cases nleft with
      | zero =>
          obtain ⟨rfl, rfl⟩ := by simpa [tcpReadLoop] using h
          exact ⟨[], rfl, rfl, (List.append_nil _).symm⟩
      | succ nleft => cases h
  | cons answer answers ih =>
      cases nleft with
      | zero =>
          obtain ⟨rfl, rfl⟩ := by simpa [tcpReadLoop] using h
          exact ⟨[], rfl, rfl, (List.append_nil _).symm⟩
      | succ nleft =>
          cases answer with
          | count k =>
              rw [tcpReadLoop] at h
              split at h
              case isTrue =>
                have hn := congrArg Prod.fst (Option.some.inj h)
                dsimp only at hn
                omega
              case isFalse hgot =>
                have hsome := length_readSome_le k (nleft + 1) input
                obtain ⟨got, hlength, hinput, hbuf⟩ := ih (by omega) h
                refine ⟨readSome k (nleft + 1) input ++ got, ?_, ?_, ?_⟩
                · rw [List.length_append]
                  omega
                · rw [List.append_assoc, ← hinput, readSome_append_drop]
                · rw [hbuf, List.append_assoc]
          | failed errno =>
              rw [tcpReadLoop] at h
              split at h
              case isTrue => exact ih hle h
              case isFalse =>
                have hn := congrArg Prod.fst (Option.some.inj h)
                dsimp only at hn
                omega

/-- **`codanetTcpRead` returns the number of bytes it is asked for only after it has stored
them**, the next ones of the stream. -/
theorem read_moved (h : codanetTcpRead n answers input = some (ret, buf, rest)) (hret : ret = n) :
    buf.length = n ∧ input = buf ++ rest := by
  obtain ⟨got, hlength, hinput, rfl⟩ := tcpReadLoop_buf le_rfl hret h
  exact ⟨hlength, hinput⟩

/-- It ends as soon as the socket has answered often enough. -/
theorem tcpReadLoop_isSome (hmoves : nleft ≤ answers.countP OsAnswer.moves) :
    (tcpReadLoop n nleft answers input buf).isSome := by
  induction answers generalizing nleft input buf with
  | nil =>
      obtain rfl := Nat.le_zero.mp hmoves
      rfl
  | cons answer answers ih =>
      cases nleft with
      | zero => rfl
      | succ nleft =>
          cases answer with
          | count k =>
              rw [tcpReadLoop]
              split
              case isTrue => rfl
              case isFalse hgot =>
                refine ih ?_
                have hk : 0 < k := by
                  rw [readSome, List.length_take] at hgot
                  omega
                rw [List.countP_cons_of_pos (by simpa [OsAnswer.moves] using hk)] at hmoves
                omega
          | failed errno =>
              rw [tcpReadLoop]
              split
              case isTrue => exact ih hmoves
              case isFalse => rfl

end Read

/-! ### Writing from several buffers -/

/-- A call of `writev` fails, or seems to. -/
def WritevFails (iovMax : ℕ) : Errno → List (List Byte) → List OsAnswer → Prop
  | _, [], _ => False
  | _, _ :: _, [] => False
  | errno, buf :: bufs, .count k :: answers =>
      if cInt (min k ((buf :: bufs).take iovMax).flatten.length) = -1 then
        errno ≠ .ewouldblock ∨ WritevFails iovMax errno (buf :: bufs) answers
      else WritevFails iovMax errno ((buf :: bufs).drop iovMax) answers
  | _, buf :: bufs, .failed errno :: answers =>
      errno ≠ .ewouldblock ∨ WritevFails iovMax errno (buf :: bufs) answers

/-- Each call of `writev` that does not fail takes all that it is given. -/
def TakesAll (iovMax : ℕ) : List (List Byte) → List OsAnswer → Prop
  | [], _ => True
  | _ :: _, [] => True
  | buf :: bufs, .count k :: answers =>
      ((buf :: bufs).take iovMax).flatten.length ≤ k ∧
        TakesAll iovMax ((buf :: bufs).drop iovMax) answers
  | buf :: bufs, .failed _ :: answers => TakesAll iovMax (buf :: bufs) answers

section Writev

variable {iovMax : ℕ} {nbytes ret : ℤ} {errno : Errno} {answers : List OsAnswer}
  {iov bufs : List (List Byte)} {sent sent' : List Byte}

theorem iovBytes_eq (iov : List (List Byte)) : iovBytes iov = cInt iov.flatten.length := by
  have hfold : ∀ (iov : List (List Byte)) (m : ℕ),
      iov.foldl (fun nbytes buf => Int.bmod (nbytes + buf.length) (2 ^ 32)) (cInt m) =
        cInt (m + iov.flatten.length) := by
    intro iov
    induction iov with
    | nil =>
        intro m
        rw [List.foldl_nil, List.flatten_nil, List.length_nil, Nat.add_zero]
    | cons buf iov ih =>
        intro m
        have hnext : Int.bmod (cInt m + buf.length) (2 ^ 32) = cInt (m + buf.length) := by
          unfold cInt
          rw [Int.bmod_add_bmod, Nat.cast_add]
        rw [List.foldl_cons, hnext, ih, List.flatten_cons, List.length_append, Nat.add_assoc]
  have h := hfold iov 0
  rwa [Nat.zero_add] at h

theorem cInt_eq_iff (n : ℕ) : cInt n = n ↔ n < 2 ^ 31 := by
  unfold cInt
  rw [Int.bmod_eq_iff] <;> omega

theorem cInt_ne_of_lt {n : ℕ} (h : n < 2 ^ 31) : cInt n ≠ -1 := by
  rw [(cInt_eq_iff n).mpr h]
  omega

/-- **The value** is -1 or the number of bytes, whatever has been sent. -/
theorem tcpWritevLoop_ret
    (h : tcpWritevLoop iovMax nbytes errno bufs answers sent = some (ret, sent')) :
    WritevFails iovMax errno bufs answers ∧ ret = -1 ∨
      ¬ WritevFails iovMax errno bufs answers ∧ ret = nbytes := by
  induction answers generalizing errno bufs sent with
  | nil =>
      cases bufs with
      | nil => exact .inr ⟨id, (congrArg Prod.fst (Option.some.inj h)).symm⟩
      | cons buf bufs => cases h
  | cons answer answers ih =>
      cases bufs with
      | nil => exact .inr ⟨id, (congrArg Prod.fst (Option.some.inj h)).symm⟩
      | cons buf bufs =>
          have hstop : ∀ {stream : List Byte}, some (-1, stream) = some (ret, sent') → ret = -1 :=
            fun h => (congrArg Prod.fst (Option.some.inj h)).symm
          cases answer with
          | count k =>
              rw [tcpWritevLoop] at h
              rw [WritevFails]
              split at h
              case isTrue hcc =>
                rw [if_pos hcc]
                split at h
                case isTrue herrno =>
                  rw [or_iff_right (not_not_intro herrno)]
                  exact ih h
                case isFalse herrno => exact .inl ⟨.inl herrno, hstop h⟩
              case isFalse hcc =>
                rw [if_neg hcc]
                exact ih h
          | failed errno =>
              rw [tcpWritevLoop] at h
              rw [WritevFails]
              split at h
              case isTrue herrno =>
                rw [or_iff_right (not_not_intro herrno)]
                exact ih h
              case isFalse herrno => exact .inl ⟨.inl herrno, hstop h⟩

/-- The bytes of the next call, and all others. -/
theorem flatten_take_drop (iovMax : ℕ) (bufs : List (List Byte)) :
    (bufs.take iovMax).flatten ++ (bufs.drop iovMax).flatten = bufs.flatten := by
  rw [← List.flatten_append, List.take_append_drop]

/-- **All bytes are sent exactly if each call takes all that it is given.** -/
theorem tcpWritevLoop_sent
    (h : tcpWritevLoop iovMax nbytes errno bufs answers sent = some (ret, sent'))
    (hfails : ¬ WritevFails iovMax errno bufs answers) (hlt : bufs.flatten.length < 2 ^ 31) :
    sent'.length ≤ sent.length + bufs.flatten.length ∧
      (TakesAll iovMax bufs answers → sent' = sent ++ bufs.flatten) ∧
      (¬ TakesAll iovMax bufs answers → sent'.length < sent.length + bufs.flatten.length) := by
  induction answers generalizing errno bufs sent with
  | nil =>
      cases bufs with
      | nil =>
          obtain rfl := congrArg Prod.snd (Option.some.inj h)
          exact ⟨le_rfl, fun _ => (List.append_nil _).symm, fun hc => absurd trivial hc⟩
      | cons buf bufs => cases h
  | cons answer answers ih =>
      cases bufs with
      | nil =>
          obtain rfl := congrArg Prod.snd (Option.some.inj h)
          exact ⟨le_rfl, fun _ => (List.append_nil _).symm, fun hc => absurd trivial hc⟩
      | cons buf bufs =>
          cases answer with
          | count k =>
              rw [tcpWritevLoop] at h
              rw [WritevFails] at hfails
              rw [TakesAll]
              have hsplit := flatten_take_drop iovMax (buf :: bufs)
              have hsum := congrArg List.length hsplit
              rw [List.length_append] at hsum
              generalize ((buf :: bufs).take iovMax).flatten = iovp at h hfails hsplit hsum ⊢
              have hcc : cInt (min k iovp.length) ≠ -1 := cInt_ne_of_lt (by omega)
              rw [if_neg hcc] at h hfails
              obtain ⟨hle, hall, hshort⟩ := ih h hfails (by omega)
              rw [List.length_append, List.length_take] at hle hshort
              refine ⟨by omega, ?_, ?_⟩
              · rintro ⟨hk, hrest⟩
                rw [hall hrest, List.take_of_length_le hk, List.append_assoc, hsplit]
              · intro hnot
                by_cases hk : iovp.length ≤ k
                · have hless := hshort fun hrest => hnot ⟨hk, hrest⟩
                  omega
                · omega
          | failed errno =>
              rw [tcpWritevLoop] at h
              rw [WritevFails, not_or, not_not] at hfails
              rw [if_pos hfails.1] at h
              exact ih h hfails.2 hlt

/-- **The bytes are moved, or failure is reported**: -1 is what callers look for. -/
def WritevMoved (iov : List (List Byte)) (ret : ℤ) (sent : List Byte) : Prop :=
  sent = iov.flatten ∧ ret = iov.flatten.length ∨ ret = -1

/-- **`codanetTcpWritev` moves all bytes or reports failure** exactly if a call fails, or each
takes all that it is given and an `int` holds the number of bytes; or if -1 is what an `int` makes
of that number. -/
theorem writev_moved_iff (h : codanetTcpWritev iovMax errno iov answers = some (ret, sent)) :
    WritevMoved iov ret sent ↔
      WritevFails iovMax errno iov answers ∨ cInt iov.flatten.length = -1 ∨
        iov.flatten.length < 2 ^ 31 ∧ TakesAll iovMax iov answers := by
  unfold WritevMoved
  rcases tcpWritevLoop_ret h with ⟨hfails, hret⟩ | ⟨hfails, hret⟩
  · exact iff_of_true (.inr hret) (.inl hfails)
  · rw [iovBytes_eq] at hret
    rw [or_iff_right hfails, hret, cInt_eq_iff, or_comm]
    refine or_congr_right ?_
    rw [and_comm]
    refine and_congr_right fun hlt => ?_
    obtain ⟨-, hall, hshort⟩ := tcpWritevLoop_sent h hfails hlt
    rw [List.nil_append] at hall
    refine ⟨fun hsent => ?_, hall⟩
    by_contra hnot
    have hless := hshort hnot
    rw [hsent, List.length_nil] at hless
    omega

/-- It ends as soon as the socket has answered often enough. -/
theorem tcpWritevLoop_isSome (hiov : 0 < iovMax) (hlt : bufs.flatten.length < 2 ^ 31)
    (hmoves : bufs.length ≤ answers.countP OsAnswer.moves) :
    (tcpWritevLoop iovMax nbytes errno bufs answers sent).isSome := by
  induction answers generalizing errno bufs sent with
  | nil =>
      obtain rfl := List.length_eq_zero_iff.mp (Nat.le_zero.mp hmoves)
      rfl
  | cons answer answers ih =>
      cases bufs with
      | nil => rfl
      | cons buf bufs =>
          cases answer with
          | count k =>
              have hsum := congrArg List.length (flatten_take_drop iovMax (buf :: bufs))
              rw [List.length_append] at hsum
              have hcc : cInt (min k ((buf :: bufs).take iovMax).flatten.length) ≠ -1 :=
                cInt_ne_of_lt (by omega)
              rw [tcpWritevLoop, if_neg hcc]
              refine ih (by omega) ?_
              have hcount : (OsAnswer.count k :: answers).countP OsAnswer.moves ≤
                  answers.countP OsAnswer.moves + 1 := by
                rw [List.countP_cons]
                split <;> omega
              rw [List.length_drop]
              omega
          | failed errno =>
              rw [tcpWritevLoop]
              split
              case isTrue => exact ih hlt hmoves
              case isFalse => rfl

end Writev

/-! ### Three integers -/

/-- The bits in front of a character. -/
def signOf (charSigned : Bool) (c : Byte) : Byte := if charSigned && c.msb then 255#8 else 0#8

/-- **No character brings a sign along** that is not there in the characters before it. -/
def NoSigns (charSigned : Bool) (buf : List Byte) : Prop :=
  charSigned = true →
    ((buf.getD 1 0).msb = true → buf.getD 0 0 = 255#8) ∧
    ((buf.getD 2 0).msb = true → buf.getD 0 0 = 255#8 ∧ buf.getD 1 0 = 255#8) ∧
    ((buf.getD 3 0).msb = true →
      buf.getD 0 0 = 255#8 ∧ buf.getD 1 0 = 255#8 ∧ buf.getD 2 0 = 255#8)

section Ints

variable {charSigned : Bool} {loops nleft : ℕ} {answers : List OsAnswer}
  {input buf buf' : List Byte} {ints : List Word}

/-- The bytes of a character that has been shifted. -/
theorem extract_promote : ∀ (charSigned : Bool) (c : Byte) (i j : Fin 4),
    (promote charSigned c <<< (8 * i.1)).extractLsb' (8 * j.1) 8 =
      if j < i then 0#8 else if j = i then c else signOf charSigned c := by
  decide +kernel

theorem or_signOf (charSigned : Bool) (b c : Byte) :
    b ||| signOf charSigned c = b ↔ (charSigned = true → c.msb = true → b = 255#8) := by
  have hones : ∀ b : Byte, b ||| 255#8 = b ↔ b = 255#8 := by decide
  unfold signOf
  cases charSigned <;> cases c.msb <;> simp [hones]

theorem or_or_eq_iff (x y z : Byte) : x ||| y ||| z = x ↔ x ||| y = x ∧ x ||| z = x := by
  constructor
  · intro h
    constructor
    · calc x ||| y = x ||| y ||| z ||| y := by rw [h]
        _ = x ||| y ||| z := by rw [BitVec.or_assoc, BitVec.or_comm z y, ← BitVec.or_assoc,
            BitVec.or_assoc x y y, BitVec.or_self]
        _ = x := h
    · calc x ||| z = x ||| y ||| z ||| z := by rw [h]
        _ = x ||| y ||| z := by rw [BitVec.or_assoc, BitVec.or_self]
        _ = x := h
  · rintro ⟨hy, hz⟩
    rw [hy, hz]

/-- The bytes of the integer, the last one first. -/
theorem extract_intOfChars (a b c d : Byte) (rest : List Byte) (j : Fin 4) :
    (intOfChars charSigned (a :: b :: c :: d :: rest)).extractLsb' (8 * j.1) 8 =
      [d, c ||| signOf charSigned d, b ||| signOf charSigned c ||| signOf charSigned d,
        a ||| signOf charSigned b ||| signOf charSigned c ||| signOf charSigned d].get j := by
  have hint : intOfChars charSigned (a :: b :: c :: d :: rest) =
      promote charSigned a <<< (8 * (3 : Fin 4).1) ||| promote charSigned b <<< (8 * (2 : Fin 4).1) |||
        promote charSigned c <<< (8 * (1 : Fin 4).1) |||
          promote charSigned d <<< (8 * (0 : Fin 4).1) := by
    simp [intOfChars]
  rw [hint, BitVec.extractLsb'_or, BitVec.extractLsb'_or, BitVec.extractLsb'_or,
    extract_promote charSigned a 3 j, extract_promote charSigned b 2 j,
    extract_promote charSigned c 1 j, extract_promote charSigned d 0 j]
  fin_cases j <;> simp

/-- **Four characters make the integer in network byte order** exactly if none brings a sign
along. -/
theorem intOfChars_eq_iff (hlength : 4 ≤ buf.length) :
    intOfChars charSigned buf = ntohl (buf.take 4) ↔ NoSigns charSigned buf := by
  obtain ⟨a, b, c, d, rest, rfl⟩ : ∃ a b c d rest, buf = a :: b :: c :: d :: rest := by
    match buf, hlength with
    | a :: b :: c :: d :: rest, _ => exact ⟨a, b, c, d, rest, rfl⟩
  have hbytes : intOfChars charSigned (a :: b :: c :: d :: rest) = ntohl [a, b, c, d] ↔
      c ||| signOf charSigned d = c ∧ b ||| signOf charSigned c ||| signOf charSigned d = b ∧
        a ||| signOf charSigned b ||| signOf charSigned c ||| signOf charSigned d = a := by
    constructor
    · intro h
      have hbyte : ∀ j : Fin 4, [d, c ||| signOf charSigned d,
          b ||| signOf charSigned c ||| signOf charSigned d,
          a ||| signOf charSigned b ||| signOf charSigned c ||| signOf charSigned d].get j =
            [d, c, b, a].get j := by
        intro j
        rw [← extract_intOfChars a b c d rest j, h, extractLsb'_ntohl]
      exact ⟨hbyte 1, hbyte 2, hbyte 3⟩
    · rintro ⟨h1, h2, h3⟩
      refine eq_of_bytes fun j => ?_
      rw [extract_intOfChars, extractLsb'_ntohl, h1, h2, h3]
  have hthree : ∀ x y z : Byte, a ||| x ||| y ||| z = a ↔
      a ||| x = a ∧ a ||| y = a ∧ a ||| z = a := by
    intro x y z
    rw [BitVec.or_assoc (a ||| x), or_or_eq_iff, ← BitVec.or_assoc, or_or_eq_iff]
  have htake : (a :: b :: c :: d :: rest).take 4 = [a, b, c, d] := rfl
  rw [htake, hbytes, or_or_eq_iff, hthree]
  simp only [or_signOf]
  unfold NoSigns
  simp only [List.getD_cons_zero, List.getD_cons_succ]
  constructor
  · rintro ⟨hdc, ⟨hcb, hdb⟩, hba, hca, hda⟩ hsigned
    exact ⟨hba hsigned, fun hc => ⟨hca hsigned hc, hcb hsigned hc⟩,
      fun hd => ⟨hda hsigned hd, hdb hsigned hd, hdc hsigned hd⟩⟩
  · intro h
    refine ⟨?_, ⟨?_, ?_⟩, fun hsigned => (h hsigned).1, ?_, ?_⟩
    · exact fun hsigned hd => ((h hsigned).2.2 hd).2.2
    · exact fun hsigned hc => ((h hsigned).2.1 hc).2
    · exact fun hsigned hd => ((h hsigned).2.2 hd).2.1
    · exact fun hsigned hc => ((h hsigned).2.1 hc).1
    · exact fun hsigned hd => ((h hsigned).2.2 hd).1

theorem intOfChars_append {rest : List Byte} (hlength : 4 ≤ buf.length) :
    intOfChars charSigned (buf ++ rest) = intOfChars charSigned buf := by
  have hget : ∀ i < 4, (buf ++ rest).getD i 0 = buf.getD i 0 := fun i hi =>
    List.getD_append _ _ _ _ (by omega)
  unfold intOfChars
  simp only [hget 0 (by decide), hget 1 (by decide), hget 2 (by decide), hget 3 (by decide)]

theorem tcpRead3iLoop_buf (h : tcpRead3iLoop loops nleft answers input buf = some (some buf')) :
    ∃ got rest, got.length = nleft ∧ input = got ++ rest ∧ buf' = buf ++ got := by
  induction answers generalizing loops nleft input buf with
  | nil =>
      cases nleft with
      | zero =>
          obtain rfl := by simpa [tcpRead3iLoop] using h
          exact ⟨[], input, rfl, rfl, (List.append_nil _).symm⟩
      | succ nleft => cases loops <;> cases h
  | cons answer answers ih =>
      cases nleft with
      | zero =>
          obtain rfl := by simpa [tcpRead3iLoop] using h
          exact ⟨[], input, rfl, rfl, (List.append_nil _).symm⟩
      | succ nleft =>
          cases loops with
          | zero => cases h
          | succ loops =>
              cases answer with
              | count k =>
                  rw [tcpRead3iLoop] at h
                  split at h
                  case isTrue => cases h
                  case isFalse hgot =>
                    have hsome := length_readSome_le k (nleft + 1) input
                    obtain ⟨got, rest, hlength, hinput, hbuf⟩ := ih h
                    refine ⟨readSome k (nleft + 1) input ++ got, rest, ?_, ?_, ?_⟩
                    · rw [List.length_append]
                      omega
                    · rw [List.append_assoc, ← hinput, readSome_append_drop]
                    · rw [hbuf, List.append_assoc]
              | failed errno =>
                  rw [tcpRead3iLoop] at h
                  split at h
                  case isTrue => cases h
                  case isFalse => exact ih h

/-- **The integers are right**: those of the next 12 bytes of the stream, which has them. -/
def IntsRight (input : List Byte) (ints : List Word) : Prop :=
  12 ≤ input.length ∧ ints = getWords 3 input

/-- **What `codanetTcpRead3iNB` returns** are the next three integers in network byte order exactly
if none of their bytes brings a sign along. -/
theorem read3i_right_iff (h : codanetTcpRead3iNB charSigned answers input = some (some ints)) :
    IntsRight input ints ↔ ∀ i < 3, NoSigns charSigned (input.drop (4 * i)) := by
  unfold codanetTcpRead3iNB at h
  obtain ⟨r, hloop, hr⟩ := Option.map_eq_some_iff.mp h
  obtain ⟨buf, rfl, rfl⟩ := Option.map_eq_some_iff.mp hr
  obtain ⟨got, rest, hlength, rfl, hbuf⟩ := tcpRead3iLoop_buf hloop
  rw [List.nil_append] at hbuf
  subst hbuf
  have hint : ∀ i < 3, intOfChars charSigned (buf.drop (4 * i)) =
      intOfChars charSigned ((buf ++ rest).drop (4 * i)) := by
    intro i hi
    rw [List.drop_append_of_le_length (by omega), intOfChars_append]
    rw [List.length_drop]
    omega
  have hword : ∀ i < 3, intOfChars charSigned ((buf ++ rest).drop (4 * i)) =
      ntohl (((buf ++ rest).drop (4 * i)).take 4) ↔
        NoSigns charSigned ((buf ++ rest).drop (4 * i)) := by
    intro i hi
    refine intOfChars_eq_iff ?_
    rw [List.length_drop, List.length_append]
    omega
  have h12 : 12 ≤ (buf ++ rest).length := by
    rw [List.length_append]
    omega
  have h0 := hint 0 (by decide)
  have h1 := hint 1 (by decide)
  have h2 := hint 2 (by decide)
  rw [IntsRight, and_iff_right h12]
  simp only [getWords, List.drop_drop, List.cons.injEq, and_true]
  constructor
  · rintro ⟨e0, e1, e2⟩ i hi
    rw [← hword i hi]
    interval_cases i
    · exact h0.symm.trans e0
    · exact h1.symm.trans e1
    · exact h2.symm.trans e2
  · intro hsigns
    exact ⟨h0.trans ((hword 0 (by decide)).mpr (hsigns 0 (by decide))),
      h1.trans ((hword 1 (by decide)).mpr (hsigns 1 (by decide))),
      h2.trans ((hword 2 (by decide)).mpr (hsigns 2 (by decide)))⟩

/-- It ends after ten answers at the latest. -/
theorem tcpRead3iLoop_isSome (hloops : loops ≤ answers.length) :
    (tcpRead3iLoop loops nleft answers input buf).isSome := by
  induction answers generalizing loops nleft input buf with
  | nil =>
      obtain rfl := Nat.le_zero.mp hloops
      cases nleft <;> rfl
  | cons answer answers ih =>
      cases nleft with
      | zero => cases loops <;> rfl
      | succ nleft =>
          cases loops with
          | zero => rfl
          | succ loops =>
              have hrest : loops ≤ answers.length := Nat.le_of_succ_le_succ hloops
              cases answer with
              | count k =>
                  rw [tcpRead3iLoop]
                  split
                  case isTrue => rfl
                  case isFalse => exact ih hrest
              | failed errno =>
                  rw [tcpRead3iLoop]
                  split
                  case isTrue => rfl
                  case isFalse => exact ih hrest

end Ints

/-! ### All of them -/

/-- **The TCP helpers move all bytes or report failure**: `codanetTcpWrite` and `codanetTcpRead`
always, `codanetTcpWritev` and `codanetTcpRead3iNB` exactly under their conditions on what the
operating system answers and on the bytes.  And none of them waits for ever where the socket keeps
on moving bytes. -/
theorem tcp_helpers_iff (errno : Errno) (answers : List OsAnswer) (input : List Byte) :
    (∀ iovMax iov ret sent, codanetTcpWritev iovMax errno iov answers = some (ret, sent) →
      (WritevMoved iov ret sent ↔
        WritevFails iovMax errno iov answers ∨ cInt iov.flatten.length = -1 ∨
          iov.flatten.length < 2 ^ 31 ∧ TakesAll iovMax iov answers)) ∧
    (∀ vptr ret sent, codanetTcpWrite errno vptr answers = some (ret, sent) →
      ret = vptr.length ∧ sent = vptr ∨ ret ≠ vptr.length) ∧
    (∀ n ret buf rest, codanetTcpRead n answers input = some (ret, buf, rest) → ret = n →
      buf.length = n ∧ input = buf ++ rest) ∧
    (∀ charSigned ints, codanetTcpRead3iNB charSigned answers input = some (some ints) →
      (IntsRight input ints ↔ ∀ i < 3, NoSigns charSigned (input.drop (4 * i)))) ∧
    (∀ iovMax iov, 0 < iovMax → iov.flatten.length < 2 ^ 31 →
      iov.length ≤ answers.countP OsAnswer.moves →
        (codanetTcpWritev iovMax errno iov answers).isSome) ∧
    (∀ vptr, vptr.length ≤ answers.countP OsAnswer.moves →
      (codanetTcpWrite errno vptr answers).isSome) ∧
    (∀ n ≤ answers.countP OsAnswer.moves, (codanetTcpRead n answers input).isSome) ∧
    (∀ charSigned, 10 ≤ answers.length →
      (codanetTcpRead3iNB charSigned answers input).isSome) := by
  refine ⟨fun _ _ _ _ h => writev_moved_iff h, fun _ _ _ h => write_moved h,
    fun _ _ _ _ h hret => read_moved h hret, fun _ _ h => read3i_right_iff h,
    fun _ _ hiov hlt hmoves => tcpWritevLoop_isSome hiov hlt hmoves,
    fun _ hmoves => tcpWriteLoop_isSome hmoves,
    fun _ hmoves => tcpReadLoop_isSome hmoves, fun charSigned hloops => ?_⟩
  rw [codanetTcpRead3iNB, Option.isSome_map]
  exact tcpRead3iLoop_isSome hloops

/-- Two buffers are written with one call that takes all of them, and the integers 1, 2 and 3 are
read after a call that has found nothing yet. -/
theorem tcp_helpers_example :
    WritevMoved [[1, 2], [3]] 3 [1, 2, 3] ∧
      IntsRight [0, 0, 0, 1, 0, 0, 0, 2, 0, 0, 0, 3] [1, 2, 3] := by
  constructor
  · obtain ⟨hwritev, -⟩ := tcp_helpers_iff .other [.count 7] []
    refine (hwritev 16 [[1, 2], [3]] 3 [1, 2, 3] (by decide)).mpr ?_
    exact .inr (.inr ⟨by decide, by decide, trivial⟩)
  · obtain ⟨-, -, -, hread, -⟩ := tcp_helpers_iff .other [.failed .ewouldblock, .count 5, .count 7]
      [0, 0, 0, 1, 0, 0, 0, 2, 0, 0, 0, 3]
    refine (hread true [1, 2, 3] (by decide)).mpr ?_
    intro i hi
    interval_cases i <;> exact fun _ => by decide

/-- **A short write is not noticed**: of three bytes the socket takes two, and all three are
reported as written.  **A byte from 128 on spoils the integer** that it is in. -/
theorem tcp_helpers_not_right :
    codanetTcpWritev 16 .other [[1, 2], [3]] [.count 2] = some (3, [1, 2]) ∧
      ¬ WritevMoved [[1, 2], [3]] 3 [1, 2] ∧
      codanetTcpRead3iNB true [.count 12] [0, 0, 0, 200, 0, 0, 0, 2, 0, 0, 0, 3] =
        some (some [0xffffffc8#32, 2, 3]) ∧
      ¬ IntsRight [0, 0, 0, 200, 0, 0, 0, 2, 0, 0, 0, 3] [0xffffffc8#32, 2, 3] := by
  refine ⟨by decide, ?_, by decide, ?_⟩
  · rintro (⟨hsent, -⟩ | hret)
    · exact absurd hsent (by decide)
    · exact absurd hret (by decide)
  · rintro ⟨-, hints⟩
    exact absurd hints (by decide)

end EventTransfer
