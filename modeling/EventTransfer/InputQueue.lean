import EventTransfer.Lib.StepRun
import EventTransfer.Lib.Tally
import EventTransfer.Restore
import EventTransfer.GroupRead
import EventTransfer.GcRepair

/-!
# Readers asleep on an input list

An input list has one mutex and one condition variable.  Reads in the mode `ET_SLEEP`
(`et_station_read`, `et_station_nread`, `et_station_nread_group`) wait there for events, and
everyone who puts events into the list wakes readers after the unlock: `et_station_dump` and
`et_station_ndump` with one signal, conductors and `et_restore` with a broadcast.

Readers and writers, in any number, are one transition system over the contents of the list.
Its steps are those at which other processes can come between: the mutex is taken, the count
is tested, the wait begins and ends, the list is changed and the mutex given back, the signal
is given.  A signal wakes any one of the waiting readers; a reader may also wake without one.
No wake-up of an attachment happens in these runs, so the test of `quit` after a wait never
ends a read.  An event is named together with its header: put again with another priority or
group, it counts as another one.

A reader should not sleep beside an event it would take (`Queue.NoneBeside`).  In the code it
can, for three reasons: one signal is given for a whole batch; it may wake a reader that does
not want the event; and a reader that has found nothing of its group gives the mutex back
before it waits, and does not look again.  Where none of this happens (`Queue.Heard`), every
event that a sleeping reader wants has a wake-up on its way to a reader of the same kind, and
the counting invariant is `Queue.Announced`.
-/

namespace EventTransfer

open StepRun StoreProgram StoreProgram.Prog Tally

/-! ## What reads take and writes leave -/

/-- The reads of an input list, with the number of events asked for and the group. -/
inductive StationRead
  | read
  | nread (num : ℕ)
  | nreadGroup (num group : ℕ)
  deriving DecidableEq, Repr

namespace StationRead

/-- The number of events asked for. -/
def num : StationRead → ℕ
  | read => 1
  | nread num | nreadGroup num _ => num

/-- The kind of reader: the group whose events it takes, or `none` if it takes any. -/
def kind : StationRead → Option ℕ
  | read | nread _ => none
  | nreadGroup _ group => some group

/-- "`if (num > pl->cnt) num = pl->cnt`": the number stays so for the scans that follow. -/
def cap (cnt : ℕ) : StationRead → StationRead
  | read => read
  | nread num => nread (min num cnt)
  | nreadGroup num group => nreadGroup (min num cnt) group

@[simp] theorem kind_cap (r : StationRead) (cnt : ℕ) : (r.cap cnt).kind = r.kind := by
  cases r <;> rfl

theorem one_le_num_cap {r : StationRead} {cnt : ℕ} (h : 1 ≤ r.num) (hcnt : 1 ≤ cnt) :
    1 ≤ (r.cap cnt).num := by
  cases r with
  | read => exact h
  | nread num => exact Nat.le_min.mpr ⟨h, hcnt⟩
  | nreadGroup num group => exact Nat.le_min.mpr ⟨h, hcnt⟩

end StationRead

variable (hdr : ℕ → EventHeader)

/-- Whether a reader of the given kind takes the event. -/
def wants : Option ℕ → ℕ → Bool
  | none, _ => true
  | some group, e => (hdr e).group = group

/-- `event->priority == ET_HIGH`. -/
def isHigh (e : ℕ) : Bool := (hdr e).priority = .high

/-- The events a read takes from a list, and the events it leaves there. -/
def StationRead.handOut (r : StationRead) (xs : List ℕ) : List ℕ × List ℕ :=
  takeWhere (wants hdr r.kind) (min r.num xs.length) xs

theorem StationRead.countP_handOut_le (r : StationRead) (xs : List ℕ) (k : Option ℕ) :
    (r.handOut hdr xs).2.countP (wants hdr k) ≤ xs.countP (wants hdr k) :=
  takeWhere_snd_sublist.countP_le

/-- A read takes an event of its kind, if there is one. -/
theorem StationRead.handOut_progress (r : StationRead) (xs : List ℕ) (hnum : 1 ≤ r.num) :
    (r.handOut hdr xs).2.countP (wants hdr r.kind) = 0 ∨
      (r.handOut hdr xs).2.countP (wants hdr r.kind) + 1 ≤ xs.countP (wants hdr r.kind) := by
  have htaken : (r.handOut hdr xs).1.length + (r.handOut hdr xs).2.countP (wants hdr r.kind) =
      xs.countP (wants hdr r.kind) := countP_takeWhere
  rcases Nat.eq_zero_or_pos (xs.countP (wants hdr r.kind)) with h0 | hpos
  · omega
  · obtain ⟨e, he, hw⟩ := List.countP_pos_iff.mp hpos
    have hlen := List.length_pos_of_mem he
    have hne : (r.handOut hdr xs).1 ≠ [] := takeWhere_fst_ne_nil (by omega) he hw
    have := List.length_pos_of_ne_nil hne
    omega

/-- The part of a read between the look at the list and the unlock. -/
def StationRead.program (att : ℤ) : StationRead → Prog InMem (List ℕ)
  | read => do
      let pe ← stationRead att
      pure pe.toList
  | nread num => stationNread att num
  | nreadGroup num group => stationNreadGroup att num group

theorem takeWhere_true (n : ℕ) (xs : List ℕ) :
    takeWhere (fun _ => true) n xs = (xs.take n, xs.drop n) := by
  induction xs generalizing n with
  | nil => cases n <;> rfl
  | cons x xs ih =>
      cases n with
      | zero => rfl
      | succ n => simp [takeWhere, ih]

/-- **`handOut` is what the reads do**: they take its first list and leave its second. -/
theorem StationRead.wp_program_done {att : ℤ} {m : InMem} {xs : List ℕ} (r : StationRead)
    (hr : Readable m xs) (hxs : xs ≠ []) (hnum : r.num ≠ 0) :
    wp (r.program att) (fun _ => True)
      (fun taken t => taken = (r.handOut m.ev.hdr xs).1 ∧
        ReadDone att m xs (r.handOut m.ev.hdr xs).1 (r.handOut m.ev.hdr xs).2 t) m := by
  cases r with
  | read =>
      obtain ⟨x, xs, rfl⟩ := List.exists_cons_of_ne_nil hxs
      have hout : StationRead.read.handOut m.ev.hdr (x :: xs) = ([x], xs) := by
        have hmin : min (StationRead.read.num) (x :: xs).length = 1 :=
          Nat.min_eq_left (Nat.succ_le_succ (Nat.zero_le _))
        unfold handOut
        rw [hmin]
        exact (takeWhere_true 1 (x :: xs))
      unfold program
      rw [wp_bind]
      refine wp_mono (wp_stationRead hr hxs) (fun _ _ => trivial) ?_
      rintro pe t - ⟨hpe, ht⟩
      rw [wp_pure, hout, hpe]
      exact ⟨trivial, rfl, ht⟩
  | nread num =>
      have hout : (StationRead.nread num).handOut m.ev.hdr xs =
          (xs.take (min num xs.length), xs.drop (min num xs.length)) := takeWhere_true _ _
      rw [hout]
      exact wp_mono (wp_stationNread hr hxs hnum) (fun _ _ => trivial) fun _ _ _ h => h
  | nreadGroup num group =>
      exact wp_mono (wp_stationNreadGroup hr hxs hnum) (fun _ _ => trivial) fun _ _ _ h => h

/-- The lists only. -/
theorem StationRead.wp_program {att : ℤ} {m : InMem} {xs : List ℕ} (r : StationRead)
    (hr : Readable m xs) (hxs : xs ≠ []) (hnum : r.num ≠ 0) :
    wp (r.program att) (fun _ => True)
      (fun taken t => taken = (r.handOut m.ev.hdr xs).1 ∧
        IsList t.ev t.pl (r.handOut m.ev.hdr xs).2) m :=
  wp_mono (r.wp_program_done hr hxs hnum) (fun _ _ => trivial) fun _ _ _ h => ⟨h.1, h.2.isList⟩

/-- The contents after `et_llist_write`: a batch that begins with an event of low priority
goes to the end, and of any other the high-priority events it begins with go behind those
of the list. -/
def llistWrite (high : ℕ → Bool) (xs : List ℕ) : List ℕ → List ℕ
  | [] => xs
  | e :: new =>
      if high e = false ∨ xs = [] then xs ++ e :: new
      else xs.takeWhile high ++ (e :: new).takeWhile high ++ xs.dropWhile high ++
        (e :: new).dropWhile high

/-- **The writes into an input list.**  A conductor writes with `et_llist_write_gc` into
GRAND_CENTRAL and with `et_llist_write` into other stations. -/
inductive Post
  | dump (pe : ℕ)
  | ndump (pe : List ℕ)
  | writeGc (pe : List ℕ)
  | write (pe : List ℕ)
  | restore (pe : List ℕ)
  deriving DecidableEq, Repr

namespace Post

/-- The array of events. -/
def events : Post → List ℕ
  | dump pe => [pe]
  | ndump pe | writeGc pe | write pe | restore pe => pe

/-- Readers are told with `pthread_cond_broadcast`, otherwise with `pthread_cond_signal`. -/
def broadcasts : Post → Bool
  | dump _ | ndump _ => false
  | writeGc _ | write _ | restore _ => true

/-- The contents afterwards, and whether readers are told.  They are not after an error, and
`et_llist_write` makes it one if there was room for some of the events only. -/
def put (nevents : ℕ) (xs : List ℕ) : Post → List ℕ × Bool
  | dump pe => if nevents ≤ xs.length then (xs, false) else (xs ++ [pe], true)
  | ndump pe | writeGc pe =>
      if nevents - xs.length < pe.length then (xs, false) else (xs ++ pe, true)
  | write pe =>
      (llistWrite (isHigh hdr) xs (pe.take (nevents - xs.length)),
        pe.length ≤ nevents - xs.length)
  | restore pe =>
      if nevents ≤ xs.length then (xs, false)
      else (mergeEvents (isHigh hdr) xs (pe.take (nevents - xs.length)), true)

/-- **`put` is what the dumps do.** -/
theorem wp_ndump {m : InMem} {xs pe : List ℕ} {nevents : ℕ} (h : IsList m.ev m.pl xs)
    (h0 : m.fix.start = 0) (hnd : pe.Nodup) (hdis : ∀ a ∈ pe, a ∉ xs) :
    wp (stationNdump nevents pe) (fun _ => True)
      (fun r t => IsList t.ev t.pl ((ndump pe).put m.ev.hdr nevents xs).1 ∧
        (r = .ok ↔ ((ndump pe).put m.ev.hdr nevents xs).2)) m := by
  refine wp_mono (wp_stationNdump h h0 hnd hdis) (fun _ _ => trivial) ?_
  rintro r t - ⟨hroom, hfull⟩
  rw [h.cnt_eq] at hroom hfull
  by_cases hr : pe.length ≤ nevents - xs.length
  · obtain ⟨rfl, hw, -⟩ := hroom hr
    have hput : (ndump pe).put m.ev.hdr nevents xs = (xs ++ pe, true) := if_neg (by omega)
    rw [hput]
    exact ⟨hw.isList, by simp⟩
  · obtain ⟨rfl, rfl⟩ := hfull hr
    have hput : (ndump pe).put t.ev.hdr nevents xs = (xs, false) := if_pos (by omega)
    rw [hput]
    exact ⟨h, by simp⟩

theorem wp_dump {m : InMem} {xs : List ℕ} {pe nevents : ℕ} (h : IsList m.ev m.pl xs)
    (h0 : m.fix.start = 0) (hpe : pe ∉ xs) :
    wp (stationDump nevents pe) (fun _ => True)
      (fun r t => IsList t.ev t.pl ((dump pe).put m.ev.hdr nevents xs).1 ∧
        (r = .ok ↔ ((dump pe).put m.ev.hdr nevents xs).2)) m := by
  refine wp_mono (wp_stationDump h h0 hpe) (fun _ _ => trivial) ?_
  rintro r t - ⟨hroom, hfull⟩
  rw [h.cnt_eq] at hroom hfull
  by_cases hr : 1 ≤ nevents - xs.length
  · obtain ⟨rfl, hw, -⟩ := hroom hr
    have hput : (dump pe).put m.ev.hdr nevents xs = (xs ++ [pe], true) := if_neg (by omega)
    rw [hput]
    exact ⟨hw.isList, by simp⟩
  · obtain ⟨rfl, rfl⟩ := hfull hr
    have hput : (dump pe).put t.ev.hdr nevents xs = (xs, false) := if_pos (by omega)
    rw [hput]
    exact ⟨h, by simp⟩

/-- The same for a restore that has room. -/
theorem wp_restore {m : InMem} {xs pe : List ℕ} {nevents : ℕ} (h : IsList m.ev m.pl xs)
    (hne : pe ≠ []) (hnd : pe.Nodup) (hdis : ∀ a ∈ pe, a ∉ xs)
    (hroom : xs.length + pe.length ≤ nevents) :
    wp (EventTransfer.restore nevents pe) (fun _ => True)
      (fun r t => IsList t.ev t.pl ((restore pe).put m.ev.hdr nevents xs).1 ∧ r.1 = .ok) m := by
  refine wp_mono (EventTransfer.wp_restore h hne hnd hdis hroom) (fun _ _ => trivial) ?_
  rintro r t - ⟨rfl, ht⟩
  have hlen := List.length_pos_of_ne_nil hne
  have htake : pe.take (nevents - xs.length) = pe := List.take_of_length_le (by omega)
  have hput : (restore pe).put m.ev.hdr nevents xs =
      (mergeEvents m.ev.isHigh xs (pe.take (nevents - xs.length)), true) := if_neg (by omega)
  rw [hput, htake]
  exact ⟨ht.isList, rfl⟩

/-- There is room for what a conductor writes.  There always is where an event is in one
place at a time, as a system has `nevents` events. -/
def HasRoom (nevents : ℕ) (xs : List ℕ) : Post → Prop
  | write pe => pe.length ≤ nevents - xs.length
  | _ => True

instance (nevents : ℕ) (xs : List ℕ) : ∀ post : Post, Decidable (post.HasRoom nevents xs)
  | write pe => inferInstanceAs (Decidable (pe.length ≤ nevents - xs.length))
  | dump _ | ndump _ | writeGc _ | restore _ => inferInstanceAs (Decidable True)

end Post

/-! ## The transition system -/

/-- How a reader has come to hold the mutex: for a first look, to wait again after a scan
that found nothing, or from the wait. -/
inductive Entry
  | fresh
  | again
  | woken
  deriving DecidableEq, Repr

/-- **How far a read is.** -/
inductive QueuePc
  | idle
  | lock (again : Bool)
  | test (how : Entry)
  | toWait (how : Entry)
  | waiting
  | woken
  | handOut (how : Entry)
  deriving DecidableEq, Repr

/-- A process that reads the list, one read after the other. -/
structure QueueReader where
  call : StationRead
  pc : QueuePc
  deriving DecidableEq, Repr

/-- How far a write is. -/
inductive PostPc
  | idle
  | lock
  | change
  | notify
  deriving DecidableEq, Repr

/-- A process that writes into the list. -/
structure QueueWriter where
  post : Post
  pc : PostPc
  deriving DecidableEq, Repr

/-- **An input list with its readers and writers.**  `holder` has the mutex. -/
structure Queue (ι ω : Type) where
  events : List ℕ
  holder : Option (ι ⊕ ω)
  reader : ι → QueueReader
  writer : ω → QueueWriter

/-- The steps.  `read` and `write` are the next step of a process under way, `signal` is the
signal of a dump and the reader it wakes. -/
inductive QueueAct (ι ω : Type)
  | call (i : ι) (call : StationRead)
  | read (i : ι)
  | wake (i : ι)
  | post (w : ω) (post : Post)
  | write (w : ω)
  | signal (w : ω) (target : Option ι)
  deriving DecidableEq, Repr

/-- The reader is woken, if it waits. -/
def QueueReader.awake (r : QueueReader) : QueueReader :=
  if r.pc = .waiting then { r with pc := .woken } else r

namespace Queue

variable {ι ω : Type} [DecidableEq ι] [DecidableEq ω] (nevents : ℕ) (s : Queue ι ω)

def setReader (i : ι) (r : QueueReader) : Queue ι ω :=
  { s with reader := Function.update s.reader i r }

def setWriter (w : ω) (q : QueueWriter) : Queue ι ω :=
  { s with writer := Function.update s.writer w q }

/-- The next step of a read. -/
def readStep (i : ι) : Option (Queue ι ω) :=
  let r := s.reader i
  match r.pc with
  | .idle | .waiting => none
  | .lock again =>
      if r.call.num < 1 then some (s.setReader i { r with pc := .idle })
      else if s.holder = none then
        some { s.setReader i { r with pc := .test (if again then .again else .fresh) } with
          holder := some (.inl i) }
      else none
  | .test how =>
      -- a scan that found nothing is not repeated before the wait
      if s.events.length < 1 ∨ how = .again then some (s.setReader i { r with pc := .toWait how })
      else some (s.setReader i { r with pc := .handOut how })
  | .toWait _ => some { s.setReader i { r with pc := .waiting } with holder := none }
  | .woken =>
      if s.holder = none then
        some { s.setReader i { r with pc := .test .woken } with holder := some (.inl i) }
      else none
  | .handOut _ =>
      let out := r.call.handOut hdr s.events
      let r' : QueueReader :=
        if out.1 = [] ∧ r.call.kind ≠ none then ⟨r.call.cap s.events.length, .lock true⟩
        else { r with pc := .idle }
      some { s.setReader i r' with events := out.2, holder := none }

/-- The next step of a write; the signal of a dump is not one of them. -/
def writeStep (w : ω) : Option (Queue ι ω) :=
  let q := s.writer w
  match q.pc with
  | .idle => none
  | .lock =>
      if q.post.events = [] then some (s.setWriter w { q with pc := .idle })
      else if s.holder = none then
        some { s.setWriter w { q with pc := .change } with holder := some (.inr w) }
      else none
  | .change =>
      let r := q.post.put hdr nevents s.events
      some { s.setWriter w { q with pc := if r.2 then .notify else .idle } with
        events := r.1, holder := none }
  | .notify =>
      if q.post.broadcasts then
        some { s.setWriter w { q with pc := .idle } with reader := fun i => (s.reader i).awake }
      else none

/-- One step of the system. -/
def step [Fintype ι] : QueueAct ι ω → Option (Queue ι ω)
  | .call i call =>
      if (s.reader i).pc = .idle then some (s.setReader i ⟨call, .lock false⟩) else none
  | .read i => s.readStep hdr i
  | .wake i =>
      if (s.reader i).pc = .waiting then some (s.setReader i (s.reader i).awake) else none
  | .post w post =>
      if (s.writer w).pc = .idle then some (s.setWriter w ⟨post, .lock⟩) else none
  | .write w => s.writeStep hdr nevents w
  | .signal w target =>
      if (s.writer w).pc = .notify ∧ (s.writer w).post.broadcasts = false then
        match target with
        | some i =>
            if (s.reader i).pc = .waiting then
              some ((s.setWriter w { s.writer w with pc := .idle }).setReader i (s.reader i).awake)
            else none
        | none =>
            if ∀ i, (s.reader i).pc ≠ .waiting then
              some (s.setWriter w { s.writer w with pc := .idle })
            else none
      else none

/-- At the start nobody is under way; the list may hold events. -/
def Start : Prop :=
  s.holder = none ∧ (∀ i, (s.reader i).pc = .idle) ∧ ∀ w, (s.writer w).pc = .idle

end Queue

/-- The transition system. -/
def queue (ι ω : Type) [Fintype ι] [DecidableEq ι] [DecidableEq ω] (nevents : ℕ) :
    Machine (Queue ι ω) (QueueAct ι ω) :=
  Machine.ofStep Queue.Start (fun s a => s.step hdr nevents a)

/-! ## Sleepers and wake-ups on their way -/

/-- The reader has been woken and has still to run. -/
def QueuePc.isWoken : QueuePc → Bool
  | .woken | .test .woken | .handOut .woken => true
  | _ => false

/-- The reader has the mutex. -/
def QueuePc.holds : QueuePc → Bool
  | .test _ | .toWait _ | .handOut _ => true
  | _ => false

/-- **No reader sleeps beside its events**: where one waits, the list has no event it would
take, or a woken reader has still to run, or a writer has still to tell. -/
def Queue.NoneBeside {ι ω : Type} (s : Queue ι ω) : Prop :=
  ∀ i, (s.reader i).pc = .waiting →
    (∀ e ∈ s.events, wants hdr (s.reader i).call.kind e = false) ∨
      (∃ j, (s.reader j).pc.isWoken) ∨ ∃ w, (s.writer w).pc = .notify

/-- The wake-ups under way to readers of kind `k` with this reader. -/
def QueueReader.due (k : Option ℕ) (r : QueueReader) : ℕ :=
  if r.pc.isWoken ∧ r.call.kind = k then 1 else 0

/-- The events for readers of kind `k` that this writer has put into the list and has still
to tell of. -/
def QueueWriter.due (k : Option ℕ) (q : QueueWriter) : ℕ :=
  if q.pc = .notify then q.post.events.countP (wants hdr k) else 0

namespace Queue

variable {ι ω : Type} (s : Queue ι ω)

/-- A broadcast has still to be given. -/
def Telling : Prop := ∃ w, (s.writer w).pc = .notify ∧ (s.writer w).post.broadcasts

/-- Of all events in the list that readers of kind `k` take, the signal has still to come. -/
def Untold [Fintype ω] (k : Option ℕ) : Prop :=
  s.Telling ∨ s.events.countP (wants hdr k) ≤ tally (QueueWriter.due hdr k) s.writer

/-- **The counting invariant**: there are no more events for readers of kind `k` than
wake-ups on their way to such readers. -/
def Announced [Fintype ι] [Fintype ω] (k : Option ℕ) : Prop :=
  s.Telling ∨ s.events.countP (wants hdr k) ≤
    tally (QueueReader.due k) s.reader + tally (QueueWriter.due hdr k) s.writer

/-- **The steps that tell those concerned.**  A signal leaves no other reader asleep that
would take an event of the list, unless the batch has at most one event for it and the woken
reader is of its kind.  A group reader that has found nothing goes to wait only while nobody
has told of an event of its group.  A conductor finds room for its events. -/
def Heard [Fintype ω] (nevents : ℕ) : QueueAct ι ω → Prop
  | .signal w (some i) => ∀ j, j ≠ i → (s.reader j).pc = .waiting →
      (∃ e ∈ s.events, wants hdr (s.reader j).call.kind e) →
      (s.writer w).post.events.countP (wants hdr (s.reader j).call.kind) ≤
        if (s.reader i).call.kind = (s.reader j).call.kind then 1 else 0
  | .read i => (s.reader i).pc = .toWait .again → s.Untold hdr (s.reader i).call.kind
  | .write w => (s.writer w).pc = .change → (s.writer w).post.HasRoom nevents s.events
  | _ => True

end Queue

/-- What a reader under way knows of the list. -/
def QueueReader.Fits (xs : List ℕ) (r : QueueReader) : Prop :=
  match r.pc with
  | .idle | .lock false => True
  | .toWait how => 1 ≤ r.call.num ∧ (how = .again ∨ xs = [])
  | .handOut _ => 1 ≤ r.call.num ∧ xs ≠ []
  | _ => 1 ≤ r.call.num

/-- **What holds in every state**: the mutex has one holder, the readers know what they
know, and the events for a sleeping reader are announced. -/
structure Queue.Inv {ι ω : Type} [Fintype ι] [Fintype ω] (s : Queue ι ω) : Prop where
  reads : ∀ i, (s.reader i).pc.holds → s.holder = some (.inl i)
  writes : ∀ w, (s.writer w).pc = .change → s.holder = some (.inr w)
  fits : ∀ i, (s.reader i).Fits s.events
  announced : ∀ i, (s.reader i).pc = .waiting → s.Announced hdr (s.reader i).call.kind

/-! ### What one step preserves -/

/-- The list changes behind the back of a reader that does not hold the mutex. -/
theorem QueueReader.Fits.of_not_holds {r : QueueReader} {xs : List ℕ} (h : r.Fits xs)
    (hr : ¬ r.pc.holds) (ys : List ℕ) : r.Fits ys := by
  unfold QueueReader.Fits at *
  cases hpc : r.pc with
  | idle => trivial
  | waiting | woken => rwa [hpc] at h
  | lock again =>
      cases again with
      | false => trivial
      | true => rwa [hpc] at h
  | test | toWait | handOut => exact absurd (by rw [hpc]; rfl) hr

theorem QueueReader.due_le_one (k : Option ℕ) (r : QueueReader) : r.due k ≤ 1 := by
  unfold QueueReader.due
  split <;> omega

theorem QueueReader.due_of_not_woken (k : Option ℕ) {r : QueueReader} (h : r.pc.isWoken = false) :
    r.due k = 0 := by
  unfold QueueReader.due
  rw [if_neg (by simp [h])]

namespace Queue

variable {hdr} {ι ω : Type} [Fintype ι] [Fintype ω] {s : Queue ι ω} {nevents : ℕ}

/-- **One reader moves.**  Either the others keep out, or it leaves the list alone; and it
takes its wake-up along only with an event, or when there is none. -/
theorem Inv.move [DecidableEq ι] (h : s.Inv hdr) {i : ι} {r : QueueReader} {xs : List ℕ}
    {holder : Option (ι ⊕ ω)}
    (alone : s.holder = none ∨ s.holder = some (.inl i) ∨ holder = s.holder ∧ xs = s.events)
    (holds : r.pc.holds → holder = some (.inl i)) (fits : r.Fits xs)
    (count : ∀ k, xs.countP (wants hdr k) = 0 ∨
      xs.countP (wants hdr k) + (s.reader i).due k ≤ s.events.countP (wants hdr k) + r.due k)
    (self : r.pc = .waiting → Announced hdr
      { s.setReader i r with events := xs, holder := holder } r.call.kind) :
    Inv hdr { s.setReader i r with events := xs, holder := holder } where
  reads j hj := by
    rcases eq_or_ne j i with rfl | hji
    · refine holds ?_
      simpa [setReader] using hj
    · have hj' : (s.reader j).pc.holds := by simpa [setReader, hji] using hj
      rcases alone with h0 | h0 | ⟨h0, -⟩
      · exact absurd (h.reads j hj') (by simp [h0])
      · exact absurd (h.reads j hj') (by simp [h0, hji.symm])
      · exact h0.trans (h.reads j hj')
  writes w hw := by
    rcases alone with h0 | h0 | ⟨h0, -⟩
    · exact absurd (h.writes w hw) (by simp [h0])
    · exact absurd (h.writes w hw) (by simp [h0])
    · exact h0.trans (h.writes w hw)
  fits j := by
    rcases eq_or_ne j i with rfl | hji
    · simpa [setReader] using fits
    · have hj : (s.reader j).Fits xs := by
        by_cases hh : (s.reader j).pc.holds
        · rcases alone with h0 | h0 | ⟨-, rfl⟩
          · exact absurd (h.reads j hh) (by simp [h0])
          · exact absurd (h.reads j hh) (by simp [h0, hji.symm])
          · exact h.fits j
        · exact (h.fits j).of_not_holds hh xs
      simpa [setReader, hji] using hj
  announced j hj := by
    rcases eq_or_ne j i with rfl | hji
    · have hr : (Function.update s.reader j r j) = r := Function.update_self ..
      change (Function.update s.reader j r j).pc = .waiting at hj
      change Announced hdr _ (Function.update s.reader j r j).call.kind
      rw [hr] at hj ⊢
      exact self hj
    · have hr : (Function.update s.reader i r j) = s.reader j := Function.update_of_ne hji ..
      change (Function.update s.reader i r j).pc = .waiting at hj
      change Announced hdr _ (Function.update s.reader i r j).call.kind
      rw [hr] at hj ⊢
      rcases h.announced j hj with ht | hle
      · exact Or.inl ht
      · refine Or.inr ?_
        have hup := tally_update (QueueReader.due (s.reader j).call.kind) s.reader i r
        change xs.countP _ ≤ tally _ (Function.update s.reader i r) + tally _ s.writer
        rcases count (s.reader j).call.kind with h0 | h0 <;> omega

/-- **One writer moves.**  Either the others keep out, or it leaves the list alone; and what
it adds it has still to tell, or it has to give a broadcast. -/
theorem Inv.moveWriter [DecidableEq ω] (h : s.Inv hdr) {w : ω} {q : QueueWriter} {xs : List ℕ}
    {holder : Option (ι ⊕ ω)}
    (alone : s.holder = none ∨ s.holder = some (.inr w) ∨ holder = s.holder ∧ xs = s.events)
    (holds : q.pc = .change → holder = some (.inr w)) (idle : (s.writer w).pc ≠ .notify)
    (count : (q.pc = .notify ∧ q.post.broadcasts) ∨
      ∀ k, xs.countP (wants hdr k) ≤ s.events.countP (wants hdr k) + q.due hdr k) :
    Inv hdr { s.setWriter w q with events := xs, holder := holder } where
  reads j hj := by
    rcases alone with h0 | h0 | ⟨h0, -⟩
    · exact absurd (h.reads j hj) (by simp [h0])
    · exact absurd (h.reads j hj) (by simp [h0])
    · exact h0.trans (h.reads j hj)
  writes v hv := by
    rcases eq_or_ne v w with rfl | hvw
    · refine holds ?_
      simpa [setWriter] using hv
    · have hv' : (s.writer v).pc = .change := by simpa [setWriter, hvw] using hv
      rcases alone with h0 | h0 | ⟨h0, -⟩
      · exact absurd (h.writes v hv') (by simp [h0])
      · exact absurd (h.writes v hv') (by simp [h0, hvw.symm])
      · exact h0.trans (h.writes v hv')
  fits j := by
    by_cases hh : (s.reader j).pc.holds
    · rcases alone with h0 | h0 | ⟨-, rfl⟩
      · exact absurd (h.reads j hh) (by simp [h0])
      · exact absurd (h.reads j hh) (by simp [h0])
      · exact h.fits j
    · exact (h.fits j).of_not_holds hh xs
  announced j hj := by
    have hself : Function.update s.writer w q w = q := Function.update_self ..
    rcases count with ⟨hq, hb⟩ | count
    · refine Or.inl ⟨w, ?_⟩
      change (Function.update s.writer w q w).pc = _ ∧ (Function.update s.writer w q w).post.broadcasts
      rw [hself]
      exact ⟨hq, hb⟩
    · rcases h.announced j hj with ⟨v, hv, hb⟩ | hle
      · have hvw : v ≠ w := by
          rintro rfl
          exact idle hv
        refine Or.inl ⟨v, ?_⟩
        change (Function.update s.writer w q v).pc = _ ∧ (Function.update s.writer w q v).post.broadcasts
        rw [Function.update_of_ne hvw]
        exact ⟨hv, hb⟩
      · refine Or.inr ?_
        have hup := tally_update (QueueWriter.due hdr (s.reader j).call.kind) s.writer w q
        have h0 : (s.writer w).due hdr (s.reader j).call.kind = 0 := if_neg idle
        have := count (s.reader j).call.kind
        change xs.countP (wants hdr (s.reader j).call.kind) ≤
          tally (QueueReader.due (s.reader j).call.kind) s.reader +
            tally (QueueWriter.due hdr (s.reader j).call.kind) (Function.update s.writer w q)
        omega

/-- The next step of a read. -/
theorem Inv.readStep [DecidableEq ι] {t : Queue ι ω} {i : ι} (h : s.Inv hdr)
    (ok : (s.reader i).pc = .toWait .again → s.Untold hdr (s.reader i).call.kind)
    (hstep : s.readStep hdr i = some t) : t.Inv hdr := by
  have hfits := h.fits i
  have hholds := h.reads i
  unfold Queue.readStep at hstep
  unfold QueueReader.Fits at hfits
  -- a reader that is not yet, or no longer, woken takes no wake-up along
  have quiet : ∀ {r : QueueReader} (k : Option ℕ), (s.reader i).pc.isWoken = false →
      s.events.countP (wants hdr k) + (s.reader i).due k ≤
        s.events.countP (wants hdr k) + r.due k := by
    intro r k hw
    rw [QueueReader.due_of_not_woken k hw]
    exact Nat.le_add_right _ _
  cases hpc : (s.reader i).pc with
  | idle => simp [hpc] at hstep
  | waiting => simp [hpc] at hstep
  | lock again =>
      simp only [hpc] at hstep hfits
      split at hstep
      · cases hstep
        exact h.move (Or.inr (Or.inr ⟨rfl, rfl⟩)) nofun trivial
          (fun k => Or.inr (quiet k (by rw [hpc]; rfl))) nofun
      · rename_i hnum
        split at hstep
        · rename_i hfree
          cases hstep
          refine h.move (Or.inl hfree) (fun _ => rfl) ?_
            (fun k => Or.inr (quiet k (by rw [hpc]; rfl))) nofun
          show 1 ≤ (s.reader i).call.num
          omega
        · cases hstep
  | test how =>
      simp only [hpc] at hstep hfits
      have hmine : s.holder = some (.inl i) := hholds (by rw [hpc]; rfl)
      split at hstep
      · rename_i hwait
        cases hstep
        refine h.move (Or.inr (Or.inl hmine)) (fun _ => hmine) ⟨hfits, ?_⟩ (fun k => ?_) nofun
        · exact hwait.symm.imp_right fun h0 => List.length_eq_zero_iff.mp (by omega)
        · rcases hwait with h0 | rfl
          · rw [List.length_eq_zero_iff.mp (by omega : s.events.length = 0)]
            exact Or.inl rfl
          · exact Or.inr (quiet k (by rw [hpc]; rfl))
      · rename_i hgo
        cases hstep
        refine h.move (Or.inr (Or.inl hmine)) (fun _ => hmine) ⟨hfits, ?_⟩ (fun k => Or.inr ?_)
          nofun
        · rintro h0
          exact hgo (Or.inl (by rw [h0]; exact Nat.one_pos))
        · unfold QueueReader.due
          rw [hpc]
          cases how <;> exact le_refl _
  | toWait how =>
      simp only [hpc] at hstep hfits
      have hmine : s.holder = some (.inl i) := hholds (by rw [hpc]; rfl)
      cases hstep
      refine h.move (Or.inr (Or.inl hmine)) nofun hfits.1
        (fun k => Or.inr (quiet k (by rw [hpc]; rfl))) fun _ => ?_
      rcases hfits.2 with rfl | h0
      · rcases ok hpc with ht | hle
        · exact Or.inl ht
        · exact Or.inr (hle.trans (Nat.le_add_left _ _))
      · refine Or.inr ?_
        change s.events.countP _ ≤ _
        rw [h0]
        exact Nat.zero_le _
  | woken =>
      simp only [hpc] at hstep hfits
      split at hstep
      · rename_i hfree
        cases hstep
        refine h.move (Or.inl hfree) (fun _ => rfl) hfits (fun k => Or.inr ?_) nofun
        unfold QueueReader.due
        rw [hpc]
        exact le_refl _
      · cases hstep
  | handOut how =>
      simp only [hpc] at hstep hfits
      have hmine : s.holder = some (.inl i) := hholds (by rw [hpc]; rfl)
      obtain ⟨hnum, hne⟩ := hfits
      have hlen := List.length_pos_of_ne_nil hne
      -- the events for its kind become fewer by one at least, or there were none
      have hcount : ∀ k, ((s.reader i).call.handOut hdr s.events).2.countP (wants hdr k) = 0 ∨
          ((s.reader i).call.handOut hdr s.events).2.countP (wants hdr k) + (s.reader i).due k ≤
            s.events.countP (wants hdr k) := by
        intro k
        by_cases hk : (s.reader i).call.kind = k
        · subst hk
          have := (s.reader i).due_le_one (s.reader i).call.kind
          have := (s.reader i).call.handOut_progress hdr s.events hnum
          omega
        · have h0 : (s.reader i).due k = 0 := if_neg fun hw => hk hw.2
          have := (s.reader i).call.countP_handOut_le hdr s.events k
          omega
      cases hstep
      refine h.move (Or.inr (Or.inl hmine)) ?_ ?_ (fun k => (hcount k).imp_right ?_) ?_
      · split <;> exact nofun
      · split
        · exact StationRead.one_le_num_cap hnum hlen
        · trivial
      · intro hle
        exact hle.trans (Nat.le_add_right _ _)
      · split <;> exact nofun

/-! ### Contents after a write -/

/-- A write that readers are told of adds its events; any other, with room for its events,
leaves the list as it is. -/
theorem countP_put (hdr : ℕ → EventHeader) (post : Post) (xs : List ℕ) (k : Option ℕ)
    (room : post.HasRoom nevents xs) :
    ((post.put hdr nevents xs).2 = false → (post.put hdr nevents xs).1 = xs) ∧
      (post.broadcasts = false →
        ((post.put hdr nevents xs).1).countP (wants hdr k) ≤
          xs.countP (wants hdr k) + post.events.countP (wants hdr k)) := by
  cases post with
  | dump pe =>
      unfold Post.put
      dsimp only
      split <;> simp [Post.events]
  | ndump pe =>
      unfold Post.put
      dsimp only
      split <;> simp [Post.events]
  | writeGc pe =>
      refine ⟨?_, nofun⟩
      unfold Post.put
      dsimp only
      split <;> simp
  | write pe =>
      refine ⟨fun h => ?_, nofun⟩
      exact absurd room (by simpa [Post.put, Post.HasRoom] using h)
  | restore pe =>
      refine ⟨?_, nofun⟩
      unfold Post.put
      dsimp only
      split <;> simp

/-- The next step of a write, other than the signal of a dump. -/
theorem Inv.writeStep [DecidableEq ω] {t : Queue ι ω} {w : ω} (h : s.Inv hdr)
    (ok : (s.writer w).pc = .change → (s.writer w).post.HasRoom nevents s.events)
    (hstep : s.writeStep hdr nevents w = some t) : t.Inv hdr := by
  unfold Queue.writeStep at hstep
  cases hpc : (s.writer w).pc with
  | idle => simp [hpc] at hstep
  | lock =>
      have hidle : (s.writer w).pc ≠ .notify := by rw [hpc]; exact nofun
      simp only [hpc] at hstep
      split at hstep
      · cases hstep
        exact h.moveWriter (Or.inr (Or.inr ⟨rfl, rfl⟩)) nofun hidle
          (Or.inr fun k => Nat.le_add_right _ _)
      · split at hstep
        · rename_i hfree
          cases hstep
          exact h.moveWriter (Or.inl hfree) (fun _ => rfl) hidle
            (Or.inr fun k => Nat.le_add_right _ _)
        · cases hstep
  | change =>
      have hidle : (s.writer w).pc ≠ .notify := by rw [hpc]; exact nofun
      simp only [hpc] at hstep
      have hput := fun k => countP_put hdr (s.writer w).post s.events k (ok hpc)
      cases hstep
      refine h.moveWriter (Or.inr (Or.inl (h.writes w hpc))) ?_ hidle ?_
      · split <;> exact nofun
      · cases htold : ((s.writer w).post.put hdr nevents s.events).2 with
        | false =>
            refine Or.inr fun k => ?_
            rw [(hput k).1 htold]
            exact Nat.le_add_right _ _
        | true =>
            cases hb : (s.writer w).post.broadcasts with
            | true => exact Or.inl ⟨rfl, rfl⟩
            | false => exact Or.inr fun k => (hput k).2 hb
  | notify =>
      simp only [hpc] at hstep
      split at hstep
      · cases hstep
        have hawake : ∀ i, (s.reader i).awake.pc ≠ .waiting ∧
            ((s.reader i).awake.pc.holds → (s.reader i).pc.holds) ∧
            (s.reader i).awake.Fits s.events := by
          intro i
          unfold QueueReader.awake
          split
          · rename_i hw
            have := h.fits i
            unfold QueueReader.Fits at this ⊢
            rw [hw] at this
            exact ⟨nofun, nofun, this⟩
          · rename_i hw
            exact ⟨hw, id, h.fits i⟩
        refine ⟨fun i hi => h.reads i ((hawake i).2.1 hi), fun v hv => ?_, fun i => (hawake i).2.2,
          fun i hi => absurd hi (hawake i).1⟩
        rcases eq_or_ne v w with rfl | hvw
        · simp [setWriter] at hv
        · exact h.writes v (by simpa [setWriter, hvw] using hv)
      · cases hstep

/-- The signal of a dump, to a reader that waits. -/
theorem Inv.signal [DecidableEq ι] [DecidableEq ω] {w : ω} {i : ι} (h : s.Inv hdr)
    (ok : s.Heard hdr nevents (.signal w (some i))) (hw : (s.writer w).pc = .notify)
    (hb : (s.writer w).post.broadcasts = false) (hi : (s.reader i).pc = .waiting) :
    Inv hdr ((s.setWriter w { s.writer w with pc := .idle }).setReader i (s.reader i).awake) := by
  have hawake : (s.reader i).awake = { s.reader i with pc := .woken } := if_pos hi
  rw [hawake]
  refine ⟨fun j hj => ?_, fun v hv => ?_, fun j => ?_, fun j hj => ?_⟩
  · rcases eq_or_ne j i with rfl | hji
    · simp [setReader, QueuePc.holds] at hj
    · exact h.reads j (by simpa [setReader, setWriter, hji] using hj)
  · rcases eq_or_ne v w with rfl | hvw
    · simp [setReader, setWriter] at hv
    · exact h.writes v (by simpa [setReader, setWriter, hvw] using hv)
  · rcases eq_or_ne j i with rfl | hji
    · have := h.fits j
      unfold QueueReader.Fits at this
      rw [hi] at this
      simpa [setReader, QueueReader.Fits] using this
    · simpa [setReader, setWriter, hji] using h.fits j
  · rcases eq_or_ne j i with rfl | hji
    · simp [setReader] at hj
    have hr : (Function.update s.reader i { s.reader i with pc := .woken } j) = s.reader j :=
      Function.update_of_ne hji ..
    change (Function.update s.reader i { s.reader i with pc := .woken } j).pc = .waiting at hj
    change Announced hdr _ (Function.update s.reader i { s.reader i with pc := .woken } j).call.kind
    rw [hr] at hj ⊢
    rcases h.announced j hj with ⟨v, hv, hbv⟩ | hle
    · have hvw : v ≠ w := by
        rintro rfl
        exact absurd hbv (by simp [hb])
      refine Or.inl ⟨v, ?_⟩
      simpa [setReader, setWriter, hvw] using ⟨hv, hbv⟩
    · refine Or.inr ?_
      have hupr := tally_update (QueueReader.due (s.reader j).call.kind) s.reader i
        { s.reader i with pc := .woken }
      have hupw := tally_update (QueueWriter.due hdr (s.reader j).call.kind) s.writer w
        { s.writer w with pc := .idle }
      have hold : (s.reader i).due (s.reader j).call.kind = 0 :=
        QueueReader.due_of_not_woken _ (by rw [hi]; rfl)
      have hnew : QueueReader.due (s.reader j).call.kind { s.reader i with pc := .woken } =
          if (s.reader i).call.kind = (s.reader j).call.kind then 1 else 0 := by
        simp [QueueReader.due, QueuePc.isWoken]
      have hsent : QueueWriter.due hdr (s.reader j).call.kind (s.writer w) =
          (s.writer w).post.events.countP (wants hdr (s.reader j).call.kind) := if_pos hw
      change s.events.countP (wants hdr (s.reader j).call.kind) ≤
        tally (QueueReader.due (s.reader j).call.kind)
            (Function.update s.reader i { s.reader i with pc := .woken }) +
          tally (QueueWriter.due hdr (s.reader j).call.kind)
            (Function.update s.writer w { s.writer w with pc := .idle })
      by_cases h0 : ∃ e ∈ s.events, wants hdr (s.reader j).call.kind e
      · have := ok j hji hj h0
        omega
      · have : s.events.countP (wants hdr (s.reader j).call.kind) = 0 :=
          List.countP_eq_zero.mpr fun e he hwe => h0 ⟨e, he, hwe⟩
        omega

/-- **One step.** -/
theorem Inv.step [DecidableEq ι] [DecidableEq ω] {t : Queue ι ω} {a : QueueAct ι ω}
    (h : s.Inv hdr) (ok : s.Heard hdr nevents a) (hstep : s.step hdr nevents a = some t) :
    t.Inv hdr := by
  cases a with
  | call i call =>
      simp only [Queue.step, Option.ite_none_right_eq_some, Option.some.injEq] at hstep
      obtain ⟨hidle, rfl⟩ := hstep
      refine h.move (Or.inr (Or.inr ⟨rfl, rfl⟩)) nofun trivial (fun k => Or.inr ?_) nofun
      rw [QueueReader.due_of_not_woken k (by rw [hidle]; rfl)]
      exact Nat.le_add_right _ _
  | read i => exact h.readStep ok hstep
  | wake i =>
      simp only [Queue.step, Option.ite_none_right_eq_some, Option.some.injEq] at hstep
      obtain ⟨hwait, rfl⟩ := hstep
      have hfits := h.fits i
      unfold QueueReader.Fits at hfits
      rw [hwait] at hfits
      rw [QueueReader.awake, if_pos hwait]
      refine h.move (Or.inr (Or.inr ⟨rfl, rfl⟩)) nofun hfits (fun k => Or.inr ?_) nofun
      rw [QueueReader.due_of_not_woken k (by rw [hwait]; rfl)]
      exact Nat.le_add_right _ _
  | post w post =>
      simp only [Queue.step, Option.ite_none_right_eq_some, Option.some.injEq] at hstep
      obtain ⟨hidle, rfl⟩ := hstep
      exact h.moveWriter (Or.inr (Or.inr ⟨rfl, rfl⟩)) nofun (by rw [hidle]; exact nofun)
        (Or.inr fun k => Nat.le_add_right _ _)
  | write w => exact h.writeStep ok hstep
  | signal w target =>
      simp only [Queue.step, Option.ite_none_right_eq_some] at hstep
      obtain ⟨⟨hw, hb⟩, hstep⟩ := hstep
      cases target with
      | some i =>
          simp only [Option.ite_none_right_eq_some, Option.some.injEq] at hstep
          obtain ⟨hi, rfl⟩ := hstep
          exact h.signal ok hw hb hi
      | none =>
          simp only [Option.ite_none_right_eq_some, Option.some.injEq] at hstep
          obtain ⟨hnone, rfl⟩ := hstep
          refine ⟨h.reads, fun v hv => ?_, h.fits, fun i hi => absurd hi (hnone i)⟩
          rcases eq_or_ne v w with rfl | hvw
          · simp [setWriter] at hv
          · exact h.writes v (by simpa [setWriter, hvw] using hv)

/-- At the start nobody sleeps. -/
theorem Start.inv (h : s.Start) : s.Inv hdr where
  reads i hi := absurd hi (by rw [h.2.1 i]; exact nofun)
  writes w hw := absurd hw (by rw [h.2.2 w]; exact nofun)
  fits i := by
    unfold QueueReader.Fits
    rw [h.2.1 i]
    trivial
  announced i hi := absurd hi (by rw [h.2.1 i]; exact nofun)

/-- Where the events for a sleeper are announced, somebody has still to run or to tell. -/
theorem Inv.noneBeside (h : s.Inv hdr) : s.NoneBeside hdr := by
  intro i hi
  rcases h.announced i hi with ⟨w, hw, -⟩ | hle
  · exact Or.inr (Or.inr ⟨w, hw⟩)
  rcases Nat.eq_zero_or_pos (s.events.countP (wants hdr (s.reader i).call.kind)) with h0 | hpos
  · refine Or.inl fun e he => ?_
    simpa using List.countP_eq_zero.mp h0 e he
  refine Or.inr ?_
  rcases Nat.eq_zero_or_pos (tally (QueueReader.due (s.reader i).call.kind) s.reader) with hz | hr
  · obtain ⟨w, hw⟩ := exists_of_tally_pos (w := QueueWriter.due hdr (s.reader i).call.kind)
      (f := s.writer) (by omega)
    unfold QueueWriter.due at hw
    split at hw
    · exact Or.inr ⟨w, ‹_›⟩
    · exact absurd hw (lt_irrefl 0)
  · obtain ⟨j, hj⟩ := exists_of_tally_pos hr
    unfold QueueReader.due at hj
    split at hj
    · rename_i hwoken
      exact Or.inl ⟨j, hwoken.1⟩
    · exact absurd hj (lt_irrefl 0)

end Queue

instance {ι ω : Type} [Fintype ι] [Fintype ω] [DecidableEq ι] (s : Queue ι ω) :
    Decidable (s.NoneBeside hdr) :=
  inferInstanceAs (Decidable (∀ _, _))

instance {ι ω : Type} [Fintype ι] [Fintype ω] [DecidableEq ι] (s : Queue ι ω) (nevents : ℕ) :
    ∀ a : QueueAct ι ω, Decidable (s.Heard hdr nevents a)
  | .signal _ (some _) => inferInstanceAs (Decidable (∀ _, _))
  | .read _ => inferInstanceAs (Decidable (_ → (∃ _, _ ∧ _) ∨ _ ≤ _))
  | .write _ => inferInstanceAs (Decidable (_ → Post.HasRoom _ _ _))
  | .call _ _ | .wake _ | .post _ _ | .signal _ none => inferInstanceAs (Decidable True)

/-- **No reader sleeps beside its events** in a run whose wake-ups reach those concerned. -/
theorem readers_none_beside {ι ω : Type} [Fintype ι] [Fintype ω] [DecidableEq ι] [DecidableEq ω]
    (hdr : ℕ → EventHeader) (nevents : ℕ) {s : Queue ι ω}
    (h : (queue hdr ι ω nevents).Reach (fun s a => s.Heard hdr nevents a) s) :
    s.NoneBeside hdr := by
  have hinv : s.Inv hdr :=
    h.invariant (fun _ hs => hs.inv) fun _ _ _ hi ok hstep => hi.step ok hstep
  exact hinv.noneBeside

/-- Two readers, one writer, no events. -/
def emptyQueue : Queue (Fin 2) (Fin 1) where
  events := []
  holder := none
  reader _ := ⟨.read, .idle⟩
  writer _ := ⟨.dump 0, .idle⟩

theorem emptyQueue_start : emptyQueue.Start := ⟨rfl, fun _ => rfl, fun _ => rfl⟩

/-- Both readers go to wait for one event. -/
def bothWait : List (QueueAct (Fin 2) (Fin 1)) :=
  [.call 0 .read, .read 0, .read 0, .read 0, .call 1 .read, .read 1, .read 1, .read 1]

/-- One event comes and one reader is woken; the other sleeps, and the woken one has still to
run. -/
theorem readers_none_beside_example :
    ∃ s, (queue (fun _ => .init) (Fin 2) (Fin 1) 4).Reach
        (fun s a => s.Heard (fun _ => .init) 4 a) s ∧
      (s.reader 1).pc = .waiting ∧ s.events = [0] ∧ s.NoneBeside fun _ => .init := by
  have hrun : ((Machine.runActs (fun s a => s.step (fun _ => .init) 4 a)
      (fun s a => s.Heard (fun _ => .init) 4 a)
      (bothWait ++ [.post 0 (.dump 0), .write 0, .write 0, .signal 0 (some 0)]) emptyQueue).map
        fun s => ((s.reader 1).pc, s.events)) = some (.waiting, [0]) := by decide
  obtain ⟨s, hs, hend⟩ := Option.map_eq_some_iff.mp hrun
  have run : (queue (fun _ => .init) (Fin 2) (Fin 1) 4).Reach
      (fun s a => s.Heard (fun _ => .init) 4 a) s :=
    Machine.reach_of_runActs (.start emptyQueue_start) hs
  obtain ⟨hwait, hevents⟩ := Prod.mk.injEq .. ▸ hend
  exact ⟨s, run, hwait, hevents, readers_none_beside _ _ run⟩

/-- **One signal for two events.**  Both readers wait, two events are dumped with one signal,
and the reader it wakes takes one of them.  The other sleeps beside the second, and nobody has
still to run or to tell. -/
theorem ndump_leaves_sleeper :
    ∃ s, (queue (fun _ => .init) (Fin 2) (Fin 1) 4).Reach (fun _ _ => True) s ∧
      ¬ s.NoneBeside fun _ => .init := by
  have hrun : ((Machine.runActs (fun s a => s.step (fun _ => .init) 4 a) (fun _ _ => True)
      (bothWait ++ [.post 0 (.ndump [0, 1]), .write 0, .write 0, .signal 0 (some 0),
        .read 0, .read 0, .read 0]) emptyQueue).map
          fun s => decide (s.NoneBeside fun _ => .init)) = some false := by decide
  obtain ⟨s, hs, hend⟩ := Option.map_eq_some_iff.mp hrun
  exact ⟨s, Machine.reach_of_runActs (.start emptyQueue_start) hs, of_decide_eq_false hend⟩

end EventTransfer
