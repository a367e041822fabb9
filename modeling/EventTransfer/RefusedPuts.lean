import EventTransfer.RemoteServer

/-!
# Puts that are refused

`et_command_loop` stores what a client puts into the events in shared memory, header and data,
and only then calls `et_event_put` or `et_events_put`, which look at the owner and the length of
each event.

`storePuts` is the storing, on whatever bytes the client has sent; `PutCommand.refused` are the
checks.  The bytes that come for an event are stored even where they do not fit: `Stored.reads`
tells how many.

* `storePuts_eq` — the storing goes by the puts that are on the connection (`putsOf`).
* `readPuts_eq_storePuts` — where the data fit, this is what the command loop reads.
* `sameEvent_iff_restates` — an event is after the storing as before exactly if the last put for
  it says what the event has already.
* `refusalChangesNothing_iff` — the storing is harmless exactly if the data fit and a put that
  is going to be refused changes nothing anyway.
-/

namespace EventTransfer

open Wire

/-! ## The server -/

/-- **The system as far as puts go**: the events, and who owns each. -/
abbrev PutSystem := Memory (Word → Word)

/-- The attachment that has the event at `place`. -/
def Memory.owner (s : PutSystem) (place : Word) : Word := s.sys place

/-- **What the storing has come to**: the system, the places of the events that were put, how
many bytes were read into the memory of which event, and what is left on the connection, or
`none` when the loop has ended. -/
structure Stored where
  system : PutSystem
  places : List Word
  reads : List (Word × ℕ)
  rest : Option (List Byte)

/-- The header of a put is stored, and its data are read if the whole event was to be modified. -/
def storePut (big : Bool) (s : PutSystem) (hheader : List Word) (stream : List Byte) : Stored :=
  let place := hheader.getD 0 0
  let s := s.update place (·.storeHeader big hheader)
  let e := s.event place
  if e.modify = etModify then
    let data := stream.take (intLen e.length)
    { system := s.update place fun e => { e with pdata := e.pdata.write data }
      places := [place]
      reads := [(place, data.length)]
      rest := if data.length = e.length.toNat then some (stream.drop data.length) else none }
  else { system := s, places := [place], reads := [], rest := some stream }

/-- The puts of a message, one after the other. -/
def storePuts (big : Bool) : ℕ → PutSystem → List Byte → Stored
  | 0, s, stream => { system := s, places := [], reads := [], rest := some stream }
  | n + 1, s, stream =>
      if stream.length < 4 * 13 then { system := s, places := [], reads := [], rest := none }
      else
        let one := storePut big s (getWords 13 stream) (stream.drop (4 * 13))
        match one.rest with
        | none => one
        | some rest =>
            let more := storePuts big n one.system rest
            { more with places := one.places ++ more.places, reads := one.reads ++ more.reads }

/-- `et_event_put` refuses the event at `place`. -/
def eventPutRefuses (att : Word) (s : PutSystem) (place : Word) : Prop :=
  att.toInt < 0 ∨ (s.event place).memsize < (s.event place).length ∨ s.owner place ≠ att

/-- `et_events_put` refuses the events at `places`; their number is `num`. -/
def eventsPutRefuses (att num : Word) (s : PutSystem) (places : List Word) : Prop :=
  num ≠ 0 ∧ (num.toInt < 0 ∨ att.toInt < 0 ∨
    ∃ place ∈ places, (s.event place).memsize < (s.event place).length ∨ s.owner place ≠ att)

/-- **A message that puts events**: the bytes behind the command. -/
inductive PutCommand
  | evPut (stream : List Byte)
  | evsPut (stream : List Byte)

namespace PutCommand

/-- The bytes behind the command. -/
def stream : PutCommand → List Byte
  | evPut stream => stream
  | evsPut stream => stream

/-- The attachment that puts. -/
def att (msg : PutCommand) : Word := (getWords 1 msg.stream).getD 0 0

/-- The number of events. -/
def nevents : PutCommand → Word
  | evPut _ => 1
  | evsPut stream => (getWords 4 stream).getD 1 0

/-- What `ET_NET_EV_PUT` and `ET_NET_EVS_PUT` do before they call the local routine. -/
def stored (big : Bool) (s : PutSystem) : PutCommand → Stored
  | evPut stream =>
      if stream.length < 4 * 14 then { system := s, places := [], reads := [], rest := none }
      else storePut big s ((getWords 14 stream).drop 1) (stream.drop (4 * 14))
  | evsPut stream =>
      if stream.length < 4 * 4 then { system := s, places := [], reads := [], rest := none }
      else storePuts big ((getWords 4 stream).getD 1 0).toInt.toNat s (stream.drop (4 * 4))

/-- The local routine is called and refuses the events. -/
def refused (big : Bool) (s : PutSystem) (msg : PutCommand) : Prop :=
  (msg.stored big s).rest.isSome ∧
    match msg with
    | evPut _ => ∃ place ∈ (msg.stored big s).places,
        eventPutRefuses msg.att (msg.stored big s).system place
    | evsPut _ =>
        eventsPutRefuses msg.att msg.nevents (msg.stored big s).system (msg.stored big s).places

end PutCommand

/-! ## What should hold -/

/-- **An event is as it was**: length, priority, data status, byte order, control words and
data. -/
structure SameEvent (e e' : MemEvent) : Prop where
  length : e'.length = e.length
  priority : e'.priority = e.priority
  datastatus : e'.datastatus = e.datastatus
  byteorder : e'.byteorder = e.byteorder
  control : e'.control = e.control
  data : e'.data = e.data

theorem SameEvent.refl (e : MemEvent) : SameEvent e e := ⟨rfl, rfl, rfl, rfl, rfl, rfl⟩

/-- **A refused put changes nothing**, and no data are stored beyond the memory of an event. -/
def RefusalChangesNothing (big : Bool) (s : PutSystem) (msg : PutCommand) : Prop :=
  (msg.refused big s → ∀ place, SameEvent (s.event place) ((msg.stored big s).system.event place)) ∧
    ∀ r ∈ (msg.stored big s).reads, r.2 ≤ (s.event r.1).memsize.toNat

/-! ## The puts on the connection -/

/-- A put: its header, and what comes of its data. -/
structure Put where
  hheader : List Word
  data : List Byte

namespace Put

/-- The place of the event that is put. -/
def place (p : Put) : Word := p.hheader.getD 0 0

/-- The length in the header. -/
def length (p : Put) : BitVec 64 := uint64 (p.hheader.getD 2 0) (p.hheader.getD 3 0)

/-- The put at the front of a stream; `modify` tells the events whose data are read. -/
def ofStream (modify : Word → Word) (hheader : List Word) (stream : List Byte) : Put where
  hheader := hheader
  data :=
    if modify (hheader.getD 0 0) = etModify then
      stream.take (intLen (uint64 (hheader.getD 2 0) (hheader.getD 3 0)))
    else []

/-- All of the data have come. -/
def Complete (modify : Word → Word) (p : Put) : Prop :=
  modify p.place = etModify → p.data.length = p.length.toNat

instance (modify : Word → Word) (p : Put) : Decidable (p.Complete modify) :=
  inferInstanceAs (Decidable (_ → _))

/-- **A put says what the event has already.** -/
structure Restates (big : Bool) (e : MemEvent) (p : Put) : Prop where
  length : p.length = e.length
  priority : unpackPriority (p.hheader.getD 4 0) = e.priority
  datastatus : unpackDatastatus (p.hheader.getD 4 0) = e.datastatus
  byteorder : netOrder big (p.hheader.getD 5 0) = e.byteorder
  control : SelectWords.ofList p.hheader 7 = e.control
  data : e.modify = etModify → p.data = e.data

end Put

/-- The puts on a connection, up to one whose data are not all there. -/
def putsOf (modify : Word → Word) : ℕ → List Byte → List Put
  | 0, _ => []
  | n + 1, stream =>
      if stream.length < 4 * 13 then []
      else
        let p := Put.ofStream modify (getWords 13 stream) (stream.drop (4 * 13))
        p :: if p.Complete modify then putsOf modify n (stream.drop (4 * 13 + p.data.length))
          else []

/-- The last put of an event. -/
def LastPut (puts : List Put) (p : Put) : Prop :=
  ∃ before after, puts = before ++ p :: after ∧ ∀ q ∈ after, q.place ≠ p.place

namespace PutCommand

/-- How the events are to be modified. -/
def modifyOf (s : PutSystem) (place : Word) : Word := (s.event place).modify

/-- The size of what is in front of the puts. -/
def front : PutCommand → ℕ
  | evPut _ => 4
  | evsPut _ => 4 * 4

/-- The puts of a message. -/
def puts (s : PutSystem) (msg : PutCommand) : List Put :=
  putsOf (modifyOf s) msg.nevents.toInt.toNat (msg.stream.drop msg.front)

/-- **All of the message is there.** -/
structure Whole (s : PutSystem) (msg : PutCommand) : Prop where
  front : msg.front ≤ msg.stream.length
  count : (msg.puts s).length = msg.nevents.toInt.toNat
  data : ∀ p ∈ msg.puts s, p.Complete (modifyOf s)

/-- The local routine is going to refuse the events. -/
def Refusable (s : PutSystem) (msg : PutCommand) : Prop :=
  msg.att.toInt < 0 ∨ ∃ p, LastPut (msg.puts s) p ∧
    ((s.event p.place).memsize < p.length ∨ s.owner p.place ≠ msg.att)

/-- **The data fit, and a message that is refused says what the events have already.** -/
structure Harmless (big : Bool) (s : PutSystem) (msg : PutCommand) : Prop where
  fits : ∀ p ∈ msg.puts s, modifyOf s p.place = etModify →
    p.data.length ≤ (s.event p.place).memsize.toNat
  restates : msg.Whole s → msg.Refusable s →
    ∀ p, LastPut (msg.puts s) p → p.Restates big (s.event p.place)

end PutCommand

/-! ## Storing one put -/

/-- The event when a put for it is stored. -/
def Put.store (big : Bool) (p : Put) (e : MemEvent) : MemEvent :=
  if e.modify = etModify then
    { e.storeHeader big p.hheader with pdata := e.pdata.write p.data }
  else e.storeHeader big p.hheader

section

variable {big : Bool} {p : Put} {e : MemEvent}

@[simp] theorem Put.store_memsize : (p.store big e).memsize = e.memsize := by
  cases e
  unfold Put.store
  split <;> rfl

@[simp] theorem Put.store_modify : (p.store big e).modify = e.modify := by
  cases e
  unfold Put.store
  split <;> rfl

/-- The header of an event that is put. -/
theorem Put.store_header (big : Bool) (p : Put) (e : MemEvent) :
    (p.store big e).length = p.length ∧
    (p.store big e).priority = unpackPriority (p.hheader.getD 4 0) ∧
    (p.store big e).datastatus = unpackDatastatus (p.hheader.getD 4 0) ∧
    (p.store big e).byteorder = netOrder big (p.hheader.getD 5 0) ∧
    (p.store big e).control = SelectWords.ofList p.hheader 7 := by
  cases e
  unfold Put.store
  split <;> exact ⟨rfl, rfl, rfl, rfl, rfl⟩

theorem Put.store_pdata (h : e.modify ≠ etModify) : (p.store big e).pdata = e.pdata := by
  rw [Put.store, if_neg h]
  cases e
  rfl

theorem Put.store_pdata_write (h : e.modify = etModify) :
    (p.store big e).pdata = e.pdata.write p.data := by
  rw [Put.store, if_pos h]

/-- The data of an event that is put. -/
theorem Put.store_data (h : e.modify = etModify) (hlength : p.data.length = p.length.toNat) :
    (p.store big e).data = p.data := by
  rw [MemEvent.data, (Put.store_header big p e).1, ← hlength, Put.store_pdata_write h]
  exact Buffer.read_write _ _

/-- **An event is after a put as before** exactly if the put says what it has already.  There may
have been other puts for it before. -/
theorem sameEvent_iff_restates {e₀ : MemEvent} (hmodify : e.modify = e₀.modify)
    (hpdata : e₀.modify ≠ etModify → e.pdata = e₀.pdata)
    (hcomplete : e₀.modify = etModify → p.data.length = p.length.toNat) :
    SameEvent e₀ (p.store big e) ↔ p.Restates big e₀ := by
  obtain ⟨hlength, hpriority, hdatastatus, hbyteorder, hcontrol⟩ :=
    Put.store_header big p e
  constructor
  · intro h
    refine ⟨?_, hpriority.symm.trans h.priority, hdatastatus.symm.trans h.datastatus,
      hbyteorder.symm.trans h.byteorder, hcontrol.symm.trans h.control, ?_⟩
    · rw [← h.length, hlength]
    · intro hm
      rw [← h.data, Put.store_data (hmodify.trans hm) (hcomplete hm)]
  · intro h
    refine ⟨?_, hpriority.trans h.priority, hdatastatus.trans h.datastatus,
      hbyteorder.trans h.byteorder, hcontrol.trans h.control, ?_⟩
    · rw [hlength, h.length]
    · by_cases hm : e₀.modify = etModify
      · rw [Put.store_data (hmodify.trans hm) (hcomplete hm), h.data hm]
      · have hm' : e.modify ≠ etModify := by rwa [hmodify]
        rw [MemEvent.data, hlength, Put.store_pdata hm', hpdata hm, h.length, MemEvent.data]

end

/-! ## Storing all of them -/

/-- The system when puts are stored. -/
def storeEach (big : Bool) (puts : List Put) (s : PutSystem) : PutSystem :=
  puts.foldl (fun s p => s.update p.place (p.store big)) s

@[simp] theorem storeEach_nil (big : Bool) (s : PutSystem) : storeEach big [] s = s := rfl

@[simp] theorem storeEach_cons (big : Bool) (p : Put) (puts : List Put) (s : PutSystem) :
    storeEach big (p :: puts) s = storeEach big puts (s.update p.place (p.store big)) := rfl

theorem storeEach_append (big : Bool) (before after : List Put) (s : PutSystem) :
    storeEach big (before ++ after) s = storeEach big after (storeEach big before s) :=
  List.foldl_append

section

variable {big : Bool} {puts : List Put} {s : PutSystem} {place : Word}

theorem storeEach_sys : (storeEach big puts s).sys = s.sys := by
  induction puts generalizing s with
  | nil => rfl
  | cons p puts ih => exact ih

/-- What every put keeps of an event, all of them keep. -/
theorem storeEach_keeps {α : Type} (f : MemEvent → α)
    (hkeeps : ∀ p ∈ puts, p.place = place → ∀ e, e.modify = (s.event place).modify →
      f (p.store big e) = f e) :
    f ((storeEach big puts s).event place) = f (s.event place) ∧
      ((storeEach big puts s).event place).modify = (s.event place).modify := by
  induction puts generalizing s with
  | nil => exact ⟨rfl, rfl⟩
  | cons p puts ih =>
      have hmodify : ((s.update p.place (p.store big)).event place).modify =
          (s.event place).modify := by
        by_cases h : place = p.place
        · subst h
          rw [Memory.update_event, Put.store_modify]
        · rw [Memory.update_event_of_ne _ _ h]
      have hstep : f ((s.update p.place (p.store big)).event place) = f (s.event place) := by
        by_cases h : place = p.place
        · subst h
          rw [Memory.update_event]
          exact hkeeps p List.mem_cons_self rfl _ rfl
        · rw [Memory.update_event_of_ne _ _ h]
      have hrest := @ih (s.update p.place (p.store big)) fun q hq hplace e he =>
        hkeeps q (List.mem_cons_of_mem _ hq) hplace e (he.trans hmodify)
      exact ⟨hrest.1.trans hstep, hrest.2.trans hmodify⟩

theorem storeEach_memsize :
    ((storeEach big puts s).event place).memsize = (s.event place).memsize :=
  (storeEach_keeps MemEvent.memsize fun _ _ _ _ _ => Put.store_memsize).1

theorem storeEach_modify :
    ((storeEach big puts s).event place).modify = (s.event place).modify :=
  (storeEach_keeps MemEvent.modify fun _ _ _ _ _ => Put.store_modify).1

theorem storeEach_pdata (h : (s.event place).modify ≠ etModify) :
    ((storeEach big puts s).event place).pdata = (s.event place).pdata :=
  (storeEach_keeps MemEvent.pdata fun _ _ _ _ he => Put.store_pdata (by rwa [he])).1

/-- An event that no put is for. -/
theorem storeEach_event (h : ∀ p ∈ puts, p.place ≠ place) :
    (storeEach big puts s).event place = s.event place :=
  (storeEach_keeps id fun p hp hplace => absurd hplace (h p hp)).1

/-- **The last put for an event decides.** -/
theorem storeEach_last (big : Bool) (s : PutSystem) {p : Put} (h : LastPut puts p) :
    ∃ e, (storeEach big puts s).event p.place = p.store big e ∧
      e.modify = (s.event p.place).modify ∧
      ((s.event p.place).modify ≠ etModify → e.pdata = (s.event p.place).pdata) := by
  obtain ⟨before, after, rfl, hafter⟩ := h
  refine ⟨(storeEach big before s).event p.place, ?_, storeEach_modify, storeEach_pdata⟩
  rw [storeEach_append, storeEach_cons, storeEach_event hafter, Memory.update_event]

/-- An event that is put has a last put. -/
theorem exists_lastPut (h : ∃ p ∈ puts, p.place = place) :
    ∃ p, LastPut puts p ∧ p.place = place := by
  induction puts with
  | nil => simp at h
  | cons q puts ih =>
      by_cases hlater : ∃ p ∈ puts, p.place = place
      · obtain ⟨p, ⟨before, after, rfl, hafter⟩, hplace⟩ := ih hlater
        exact ⟨p, ⟨q :: before, after, rfl, hafter⟩, hplace⟩
      · have hq : q.place = place := by
          obtain ⟨p, hp, hplace⟩ := h
          rcases List.mem_cons.mp hp with rfl | hp
          · exact hplace
          · exact absurd ⟨p, hp, hplace⟩ hlater
        refine ⟨q, ⟨[], puts, rfl, ?_⟩, hq⟩
        intro p hp hplace
        exact hlater ⟨p, hp, hplace.trans hq⟩

theorem LastPut.mem {p : Put} (h : LastPut puts p) : p ∈ puts := by
  obtain ⟨before, after, rfl, _⟩ := h
  simp

end

/-! ## The storing goes by the puts -/

section

variable {big : Bool} {s : PutSystem}

open PutCommand

/-- How many bytes a put stores. -/
def Put.reads (modify : Word → Word) (p : Put) : List (Word × ℕ) :=
  if modify p.place = etModify then [(p.place, p.data.length)] else []

theorem modifyOf_update (p : Put) : modifyOf (s.update p.place (p.store big)) = modifyOf s := by
  funext place
  show ((storeEach big [p] s).event place).modify = _
  exact storeEach_modify

theorem Put.ofStream_data (modify : Word → Word) (hheader : List Word) (stream : List Byte) :
    (Put.ofStream modify hheader stream).data =
      if modify (Put.ofStream modify hheader stream).place = etModify then
        stream.take (intLen (Put.ofStream modify hheader stream).length)
      else [] := by
  rw [Put.place, Put.length, Put.ofStream]

/-- **One put is stored.** -/
theorem storePut_eq (big : Bool) {p : Put} {stream : List Byte}
    (hdata : p.data = if modifyOf s p.place = etModify then stream.take (intLen p.length) else []) :
    storePut big s p.hheader stream =
      { system := s.update p.place (p.store big)
        places := [p.place]
        reads := p.reads (modifyOf s)
        rest := if p.Complete (modifyOf s) then some (stream.drop p.data.length) else none } := by
  have hplace : p.hheader.getD 0 0 = p.place := rfl
  have hmod := (s.event p.place).storeHeader_modify big p.hheader
  have hlen : ((s.event p.place).storeHeader big p.hheader).length = p.length :=
    (s.event p.place).storeHeader_length big p.hheader
  unfold storePut Put.reads
  simp only [hplace, Memory.update_event, hmod, hlen]
  by_cases h : (s.event p.place).modify = etModify
  · have htake : stream.take (intLen p.length) = p.data := by
      rw [hdata, if_pos]
      exact h
    have hstore : (s.update p.place (·.storeHeader big p.hheader)).update p.place
        (fun e => { e with pdata := e.pdata.write p.data }) = s.update p.place (p.store big) := by
      rw [Memory.update_update]
      apply Memory.update_congr
      rw [Put.store, if_pos h]
      cases s.event p.place
      rfl
    have hcomplete : p.Complete (modifyOf s) ↔ p.data.length = p.length.toNat :=
      ⟨fun hc => hc h, fun hc _ => hc⟩
    rw [if_pos h, htake, hstore]
    simp only [modifyOf, h, if_true, hcomplete]
  · have hnone : p.data.length = 0 := by
      rw [hdata, if_neg, List.length_nil]
      exact h
    have hstore : s.update p.place (·.storeHeader big p.hheader) =
        s.update p.place (p.store big) := by
      apply Memory.update_congr
      rw [Put.store, if_neg h]
    have hcomplete : p.Complete (modifyOf s) := fun hc => absurd hc h
    rw [if_neg h, hstore, if_pos hcomplete, hnone, List.drop_zero]
    simp only [modifyOf, h, if_false]

/-- **What comes of puts that are stored**; the loop goes on if they are `whole`. -/
structure StoredFor (big : Bool) (s : PutSystem) (puts : List Put) (whole : Prop) (st : Stored) :
    Prop where
  system : st.system = storeEach big puts s
  places : st.places = puts.map Put.place
  reads : st.reads = puts.flatMap (Put.reads (modifyOf s))
  rest : st.rest.isSome ↔ whole

/-- **The storing goes by the puts on the connection.** -/
theorem storePuts_eq (big : Bool) (n : ℕ) (s : PutSystem) (stream : List Byte) :
    StoredFor big s (putsOf (modifyOf s) n stream)
      ((putsOf (modifyOf s) n stream).length = n ∧
        ∀ p ∈ putsOf (modifyOf s) n stream, p.Complete (modifyOf s))
      (storePuts big n s stream) := by
  induction n generalizing s stream with
  | zero => exact ⟨rfl, rfl, rfl, by simp [storePuts, putsOf]⟩
  | succ n ih =>
      unfold storePuts putsOf
      by_cases hshort : stream.length < 4 * 13
      · rw [if_pos hshort, if_pos hshort]
        exact ⟨rfl, rfl, rfl, by simp⟩
      · rw [if_neg hshort, if_neg hshort]
        have hone := storePut_eq big
          (Put.ofStream_data (modifyOf s) (getWords 13 stream) (stream.drop (4 * 13)))
        generalize hp : Put.ofStream (modifyOf s) (getWords 13 stream) (stream.drop (4 * 13)) = p
          at hone ⊢
        have hheader : p.hheader = getWords 13 stream := by rw [← hp, Put.ofStream]
        rw [hheader] at hone
        by_cases hc : p.Complete (modifyOf s)
        · obtain ⟨hsystem, hplaces, hreads, hrest⟩ := ih (s.update p.place (p.store big))
            (stream.drop (4 * 13 + p.data.length))
          rw [modifyOf_update] at hsystem hplaces hreads hrest
          simp only [hone, if_pos hc, List.drop_drop]
          refine ⟨hsystem, ?_, ?_, ?_⟩
          · rw [hplaces, List.map_cons, List.singleton_append]
          · rw [hreads, List.flatMap_cons]
          · rw [hrest, List.length_cons, Nat.add_right_cancel_iff, List.forall_mem_cons]
            simp only [hc, true_and]
        · simp only [hone, if_neg hc]
          refine ⟨rfl, rfl, by simp, ?_⟩
          simp only [Option.isSome_none, Bool.false_eq_true, List.forall_mem_singleton, hc,
            and_false]

theorem stored_evPut (s : PutSystem) (stream : List Byte) :
    (evPut stream).stored big s = storePuts big 1 s (stream.drop 4) := by
  have hwords : (getWords 14 stream).drop 1 = getWords 13 (stream.drop 4) := rfl
  have hlength : stream.length < 4 * 14 ↔ (stream.drop 4).length < 4 * 13 := by
    rw [List.length_drop]
    omega
  have hdrop : stream.drop (4 * 14) = (stream.drop 4).drop (4 * 13) := by rw [List.drop_drop]
  rw [stored, storePuts, hwords, hdrop]
  by_cases h : stream.length < 4 * 14
  · rw [if_pos h, if_pos (hlength.mp h)]
  · rw [if_neg h, if_neg (mt hlength.mpr h)]
    generalize storePut big s _ _ = one
    obtain ⟨system, places, reads, _ | rest⟩ := one
    · rfl
    · simp only [storePuts, List.append_nil]

/-- **What comes of a message.** -/
theorem stored_eq (big : Bool) (s : PutSystem) (msg : PutCommand) :
    StoredFor big s (msg.puts s) (msg.Whole s) (msg.stored big s) := by
  cases msg with
  | evPut stream =>
      obtain ⟨hsystem, hplaces, hreads, hrest⟩ := storePuts_eq big 1 s (stream.drop 4)
      rw [stored_evPut]
      refine ⟨hsystem, hplaces, hreads, hrest.trans ⟨?_, ?_⟩⟩
      · rintro ⟨hcount, hdata⟩
        refine ⟨?_, hcount, hdata⟩
        by_contra hshort
        have hnone : putsOf (modifyOf s) 1 (stream.drop 4) = [] := by
          rw [putsOf, if_pos]
          rw [List.length_drop]
          simp only [front, PutCommand.stream] at hshort
          omega
        rw [hnone] at hcount
        simp at hcount
      · intro h
        exact ⟨h.count, h.data⟩
  | evsPut stream =>
      rw [stored]
      by_cases hshort : stream.length < 4 * 4
      · have hnil : stream.drop (4 * 4) = [] := List.drop_eq_nil_of_le hshort.le
        have hnone : (evsPut stream).puts s = [] := by
          unfold puts PutCommand.stream front
          rw [hnil]
          cases (evsPut stream).nevents.toInt.toNat with
          | zero => rfl
          | succ n => rfl
        rw [if_pos hshort, hnone]
        refine ⟨rfl, rfl, rfl, ?_⟩
        simp only [Option.isSome_none, Bool.false_eq_true, false_iff]
        intro h
        exact absurd h.front (by simpa [front, PutCommand.stream] using hshort)
      · obtain ⟨hsystem, hplaces, hreads, hrest⟩ := storePuts_eq big
          ((getWords 4 stream).getD 1 0).toInt.toNat s (stream.drop (4 * 4))
        rw [if_neg hshort]
        refine ⟨hsystem, hplaces, hreads, hrest.trans ⟨?_, ?_⟩⟩
        · rintro ⟨hcount, hdata⟩
          exact ⟨Nat.le_of_not_lt hshort, hcount, hdata⟩
        · intro h
          exact ⟨h.count, h.data⟩

/-! ### Where the data fit -/

/-- One put is read as the command loop reads it. -/
theorem readData_eq_storePut {hheader : List Word} {stream rest : List Byte}
    (hrest : (storePut big s hheader stream).rest = some rest)
    (hfits : ∀ r ∈ (storePut big s hheader stream).reads, r.2 ≤ (s.event r.1).memsize.toNat) :
    (readData (s.update (hheader.getD 0 0) (·.storeHeader big hheader)) (hheader.getD 0 0)).run
        stream = some (some (storePut big s hheader stream).system, rest) := by
  unfold storePut at hrest hfits ⊢
  unfold readData
  have hmemsize := (s.event (hheader.getD 0 0)).storeHeader_memsize big hheader
  simp only [Memory.update_event] at hrest hfits ⊢
  generalize (s.event (hheader.getD 0 0)).storeHeader big hheader = e at *
  by_cases h : e.modify = etModify
  · simp only [h, if_true] at hrest hfits ⊢
    by_cases hall : (stream.take (intLen e.length)).length = e.length.toNat
    · have htake := @List.length_take _ (intLen e.length) stream
      have hle := intLen_le e.length
      have hint : intLen e.length = e.length.toNat := by omega
      have hmem : e.length ≤ e.memsize := by
        have hread := hfits _ (List.mem_singleton_self _)
        simp only [hall, ← hmemsize] at hread
        rwa [BitVec.le_def]
      have hrun : (readBytes (intLen e.length)).run stream =
          some (stream.take (intLen e.length), rest) := by
        have hread := run_readBytes (hall.trans hint.symm) (stream.drop (intLen e.length))
        rw [if_pos hall, hall, ← hint, Option.some_inj] at hrest
        rwa [List.take_append_drop, hrest] at hread
      have hshort := lt_of_intLen_eq hint
      simp only [hshort, hmem, if_true]
      exact run_bind_of hrun (StateT.run_pure _ _)
    · rw [if_neg hall] at hrest
      exact absurd hrest (by simp)
  · simp only [h, if_false, Option.some_inj] at hrest ⊢
    rw [← hrest]
    exact StateT.run_pure _ _

theorem storePut_places_memsize (big : Bool) (s : PutSystem) (hheader : List Word)
    (stream : List Byte) :
    (storePut big s hheader stream).places = [hheader.getD 0 0] ∧
      ∀ place, ((storePut big s hheader stream).system.event place).memsize =
        (s.event place).memsize := by
  have hone := storePut_eq big (Put.ofStream_data (modifyOf s) hheader stream)
  rw [Put.ofStream] at hone
  rw [hone]
  refine ⟨rfl, fun place => ?_⟩
  show ((storeEach big [_] s).event place).memsize = _
  exact storeEach_memsize

/-- **Where the data fit, the puts are read as the command loop reads them.** -/
theorem readPuts_eq_storePuts {n : ℕ} {stream rest : List Byte}
    (hrest : (storePuts big n s stream).rest = some rest)
    (hfits : ∀ r ∈ (storePuts big n s stream).reads, r.2 ≤ (s.event r.1).memsize.toNat) :
    (readPuts big n s).run stream =
      some ((some (storePuts big n s stream).system, (storePuts big n s stream).places), rest) := by
  induction n generalizing s stream with
  | zero =>
      rw [storePuts, Option.some_inj] at hrest
      rw [← hrest]
      rfl
  | succ n ih =>
      unfold storePuts at hrest hfits ⊢
      by_cases hshort : stream.length < 4 * 13
      · rw [if_pos hshort] at hrest
        exact absurd hrest (by simp)
      · simp only [if_neg hshort] at hrest hfits ⊢
        obtain ⟨hplaces, hmemsize⟩ := storePut_places_memsize big s (getWords 13 stream)
          (stream.drop (4 * 13))
        have hdata := @readData_eq_storePut big s (getWords 13 stream) (stream.drop (4 * 13))
        generalize storePut big s (getWords 13 stream) (stream.drop (4 * 13)) = one at *
        obtain ⟨system, places, reads, _ | rest'⟩ := one
        · exact absurd hrest (by simp)
        · simp only at hrest hfits hmemsize hplaces hdata ⊢
          have hmore := ih hrest fun r hr => by
            rw [hmemsize]
            exact hfits r (List.mem_append_right _ hr)
          refine run_bind_of (run_readWords_of_le (Nat.le_of_not_lt hshort)) ?_
          refine run_bind_of (hdata rfl fun r hr => hfits r (List.mem_append_left _ hr)) ?_
          refine run_bind_of hmore ?_
          rw [hplaces]
          exact StateT.run_pure _ _

/-! ## Refusals -/

/-- What the checks see of an event that is put. -/
theorem storeEach_checked (big : Bool) (s : PutSystem) {puts : List Put} {p : Put}
    (h : LastPut puts p) :
    ((storeEach big puts s).event p.place).memsize = (s.event p.place).memsize ∧
      ((storeEach big puts s).event p.place).length = p.length ∧
      (storeEach big puts s).owner p.place = s.owner p.place := by
  obtain ⟨e, hevent, _, _⟩ := storeEach_last big s h
  refine ⟨storeEach_memsize, ?_, congrFun storeEach_sys p.place⟩
  rw [hevent, (Put.store_header big p e).1]

/-- One of the events that are put does not pass the checks. -/
theorem exists_unfit_iff (big : Bool) {puts : List Put} {att : Word} :
    (∃ place ∈ puts.map Put.place,
      ((storeEach big puts s).event place).memsize < ((storeEach big puts s).event place).length ∨
        (storeEach big puts s).owner place ≠ att) ↔
      ∃ p, LastPut puts p ∧ ((s.event p.place).memsize < p.length ∨ s.owner p.place ≠ att) := by
  constructor
  · rintro ⟨place, hplace, hunfit⟩
    obtain ⟨p, hp, rfl⟩ := exists_lastPut (List.mem_map.mp hplace)
    obtain ⟨hmemsize, hlength, howner⟩ := storeEach_checked big s hp
    rw [hmemsize, hlength, howner] at hunfit
    exact ⟨p, hp, hunfit⟩
  · rintro ⟨p, hp, hunfit⟩
    obtain ⟨hmemsize, hlength, howner⟩ := storeEach_checked big s hp
    refine ⟨p.place, List.mem_map_of_mem hp.mem, ?_⟩
    rwa [hmemsize, hlength, howner]

/-- **Which messages are refused.** -/
theorem refused_iff {msg : PutCommand} (h : msg.puts s ≠ []) :
    msg.refused big s ↔ msg.Whole s ∧ msg.Refusable s := by
  obtain ⟨hsystem, hplaces, _, hrest⟩ := stored_eq big s msg
  unfold refused Refusable
  rw [hrest]
  apply and_congr_right
  intro hwhole
  rw [hsystem, hplaces]
  have hsome : ∃ place, place ∈ (msg.puts s).map Put.place := by
    obtain ⟨p, hp⟩ := List.exists_mem_of_ne_nil _ h
    exact ⟨p.place, List.mem_map_of_mem hp⟩
  have hnum : 0 < msg.nevents.toInt := by
    have := List.length_pos_of_ne_nil h
    rw [hwhole.count] at this
    omega
  rw [← exists_unfit_iff big]
  cases msg with
  | evPut stream =>
      simp only [eventPutRefuses]
      constructor
      · rintro ⟨place, hplace, hatt | hunfit⟩
        · exact Or.inl hatt
        · exact Or.inr ⟨place, hplace, hunfit⟩
      · rintro (hatt | ⟨place, hplace, hunfit⟩)
        · obtain ⟨place, hplace⟩ := hsome
          exact ⟨place, hplace, Or.inl hatt⟩
        · exact ⟨place, hplace, Or.inr hunfit⟩
  | evsPut stream =>
      have hne : (evsPut stream).nevents ≠ 0 := by
        intro h0
        rw [h0] at hnum
        exact absurd hnum (by decide)
      simp only [eventsPutRefuses, hne, ne_eq, not_false_eq_true, true_and]
      exact or_iff_right hnum.not_gt

/-! ## What holds -/

/-- The events are as they were exactly if the last puts say what they have. -/
theorem sameEvents_iff {puts : List Put} (hcomplete : ∀ p ∈ puts, p.Complete (modifyOf s)) :
    (∀ place, SameEvent (s.event place) ((storeEach big puts s).event place)) ↔
      ∀ p, LastPut puts p → p.Restates big (s.event p.place) := by
  have hlast : ∀ p, LastPut puts p →
      (SameEvent (s.event p.place) ((storeEach big puts s).event p.place) ↔
        p.Restates big (s.event p.place)) := by
    intro p hp
    obtain ⟨e, hevent, hmodify, hpdata⟩ := storeEach_last big s hp
    rw [hevent]
    exact sameEvent_iff_restates hmodify hpdata (hcomplete p hp.mem)
  constructor
  · intro h p hp
    exact (hlast p hp).mp (h p.place)
  · intro h place
    by_cases hput : ∃ p ∈ puts, p.place = place
    · obtain ⟨p, hp, rfl⟩ := exists_lastPut hput
      exact (hlast p hp).mpr (h p hp)
    · rw [storeEach_event fun p hp hplace => hput ⟨p, hp, hplace⟩]
      exact SameEvent.refl _

/-- No data are stored beyond the memory of an event exactly if they fit. -/
theorem reads_iff {puts : List Put} :
    (∀ r ∈ puts.flatMap (Put.reads (modifyOf s)), r.2 ≤ (s.event r.1).memsize.toNat) ↔
      ∀ p ∈ puts, modifyOf s p.place = etModify →
        p.data.length ≤ (s.event p.place).memsize.toNat := by
  constructor
  · intro h p hp hmodify
    refine h (p.place, p.data.length) (List.mem_flatMap.mpr ⟨p, hp, ?_⟩)
    rw [Put.reads, if_pos hmodify]
    exact List.mem_singleton_self _
  · intro h r hr
    obtain ⟨p, hp, hread⟩ := List.mem_flatMap.mp hr
    by_cases hmodify : modifyOf s p.place = etModify
    · rw [Put.reads, if_pos hmodify, List.mem_singleton] at hread
      subst hread
      exact h p hp hmodify
    · rw [Put.reads, if_neg hmodify] at hread
      exact absurd hread List.not_mem_nil

/-- **A refused put changes nothing** exactly if its data fit and it says what is there. -/
theorem refusalChangesNothing_iff (big : Bool) (s : PutSystem) (msg : PutCommand) :
    RefusalChangesNothing big s msg ↔ msg.Harmless big s := by
  obtain ⟨hsystem, _, hreads, _⟩ := stored_eq big s msg
  have hsame : (msg.refused big s →
      ∀ place, SameEvent (s.event place) ((msg.stored big s).system.event place)) ↔
      (msg.Whole s → msg.Refusable s →
        ∀ p, LastPut (msg.puts s) p → p.Restates big (s.event p.place)) := by
    rw [hsystem]
    by_cases hnone : msg.puts s = []
    · rw [hnone]
      constructor
      · intro _ _ _ p hp
        exact absurd hp.mem List.not_mem_nil
      · intro _ _ place
        exact SameEvent.refl _
    · rw [refused_iff hnone, and_imp]
      exact forall_congr' fun hwhole => imp_congr_right fun _ => sameEvents_iff hwhole.data
  unfold RefusalChangesNothing
  rw [hsame, hreads, reads_iff]
  exact ⟨fun h => ⟨h.2, h.1⟩, fun h => ⟨h.restates, h.fits⟩⟩

end

/-! ### What goes wrong -/

/-- The puts of a message with one event. -/
theorem puts_evPut (s : PutSystem) (att : Word) {hheader : List Word} (data : List Byte)
    (h : hheader.length = 13) :
    (PutCommand.evPut (putWords (att :: hheader) ++ data)).puts s =
      [Put.ofStream (PutCommand.modifyOf s) hheader data] := by
  have hdrop : (putWords (att :: hheader) ++ data).drop 4 = putWords hheader ++ data := by
    rw [putWords_cons, List.append_assoc]
    exact List.drop_left' (length_htonl att)
  have hlong : ¬(putWords hheader ++ data).length < 4 * 13 := by
    rw [List.length_append, length_putWords, h]
    omega
  have hhead : getWords 13 (putWords hheader ++ data) = hheader := by
    rw [← h]
    exact getWords_putWords_append hheader data
  have hdata : (putWords hheader ++ data).drop (4 * 13) = data :=
    List.drop_left' (by rw [length_putWords, h])
  show putsOf _ 1 ((putWords (att :: hheader) ++ data).drop 4) = _
  rw [hdrop, putsOf, if_neg hlong, hhead, hdata]
  simp only [putsOf, ite_self]

/-- The header of a put of `length` bytes into the event at place 0. -/
def headerFor (length : Word) : List Word := [0, 0, 0, length, 0, 0, 0, 0, 0, 0, 0, 0, 0]

/-- The events are new and belong to attachment 1. -/
def newEvents : PutSystem where
  sys := fun _ => 1
  event := fun _ => { MemEvent.blank with memsize := 8, modify := etModify }

/-- Attachment `att` puts `n` bytes into an event of attachment 1. -/
def onePut (att : Word) (n : ℕ) : PutCommand :=
  .evPut (putWords (att :: headerFor (BitVec.ofNat 32 n)) ++ List.replicate n 1)

/-- The put of such a message. -/
def putOf (n : ℕ) : Put := ⟨headerFor (BitVec.ofNat 32 n), List.replicate n 1⟩

theorem puts_onePut (att : Word) {n : ℕ} (h : intLen (putOf n).length = n) :
    (onePut att n).puts newEvents = [putOf n] := by
  have hint : intLen (uint64 ((headerFor (BitVec.ofNat 32 n)).getD 2 0)
      ((headerFor (BitVec.ofNat 32 n)).getD 3 0)) = n := h
  have hmodify : PutCommand.modifyOf newEvents ((headerFor (BitVec.ofNat 32 n)).getD 0 0) =
      etModify := rfl
  rw [onePut, puts_evPut _ _ _ rfl, Put.ofStream, if_pos hmodify, hint,
    List.take_of_length_le (List.length_replicate).le]
  rfl

/-- **An attachment that does not own an event changes it**, and the owner stores sixteen bytes in
an event with room for eight. -/
theorem refusedPut_changes :
    ¬RefusalChangesNothing false newEvents (onePut 2 4) ∧
      ¬RefusalChangesNothing false newEvents (onePut 1 16) := by
  constructor
  · intro h
    have hputs : (onePut 2 4).puts newEvents = [putOf 4] := puts_onePut 2 (by decide)
    have hlast : LastPut ((onePut 2 4).puts newEvents) (putOf 4) :=
      ⟨[], [], hputs, by simp⟩
    have hwhole : (onePut 2 4).Whole newEvents := by
      refine ⟨by decide, ?_, ?_⟩
      · rw [hputs]
        rfl
      · rw [hputs]
        intro p hp _
        rw [List.mem_singleton.mp hp]
        decide
    have hrefused : (onePut 2 4).refused false newEvents := by
      refine (refused_iff (List.ne_nil_of_mem hlast.mem)).mpr ⟨hwhole, Or.inr ?_⟩
      exact ⟨_, hlast, Or.inr (by decide)⟩
    have hlength := (h.1 hrefused 0).length
    rw [(stored_eq false newEvents (onePut 2 4)).system] at hlength
    obtain ⟨_, hput, _⟩ := storeEach_checked false newEvents hlast
    have hplace : (putOf 4).place = 0 := rfl
    rw [hplace, hlength] at hput
    exact absurd hput (by decide)
  · intro h
    have hputs : (onePut 1 16).puts newEvents = [putOf 16] := puts_onePut 1 (by decide)
    have hreads := h.2 (0, 16)
    rw [(stored_eq false newEvents (onePut 1 16)).reads, hputs] at hreads
    exact absurd (hreads (by decide)) (by decide)

end EventTransfer
