import EventTransfer.Lib.Overwrite
import EventTransfer.RemoteCall

/-!
# Asking for a system

A client that does not know where a system is sends a UDP datagram with the system's name
(`et_findserver2`), and each system has a thread (`et_cast_thread`) that answers those with its
own name.

The client sends the whole array that it writes the request to.  The thread receives into one
array, of which a datagram overwrites no more than the first 104 bytes, and copies the name into
another one, which it compares with its own name; it does not look at how many bytes have come.
So what it sees is the datagram over whatever the two arrays held before (`CastBuffers`).

* `castReceive` — what the thread does with a datagram, and whether it answers.
* `castReceive_iff` — when it does.
* `recognised_iff` — the names that are recognised whatever the arrays hold.
* `answers_only_requests_iff` — the datagrams that make the thread answer only where it is asked.
-/

namespace EventTransfer

open Wire

/-! ## The request -/

/-- `ET_MAGIC_INT1`, `ET_MAGIC_INT2` and `ET_MAGIC_INT3`. -/
def magicInts : List Word := [0x45543269, 0x73324772, 0x72656174]

/-- `ET_VERSION`. -/
def etVersion : Word := 16

/-- The size of `outbuf` and of `inbuf`.  The names that `et_open` and `et_system_config_setfile`
take are shorter than `ET_FILENAME_LENGTH`. -/
def requestSize : ℕ := etFilenameLength + 1 + 5 * 4

/-- What is sent before the name: the magic numbers, the version and the length. -/
def requestHeader (length : Word) : List Byte := putWords (magicInts ++ [etVersion, length])

@[simp] theorem length_requestHeader (length : Word) : (requestHeader length).length = 20 := rfl

/-- The datagram that `et_findserver2` sends: all of `outbuf`. -/
def findRequest (outbuf : Mem requestSize) (etname : Str etFilenameLength) : List Byte :=
  overwrite outbuf.1 (requestHeader etname.1.size ++ etname.1.put)

/-! ## The thread that listens -/

/-- The arrays of `et_cast_thread`, as the last datagram has left them. -/
structure CastBuffers where
  inbuf : Mem requestSize
  filename : Mem etFilenameLength

/-- One round of `et_cast_thread` in the system of the given name, and whether it answers. -/
def castReceive (name : Str etFilenameLength) (b : CastBuffers) (datagram : List Byte) :
    CastBuffers × Bool :=
  let inbuf := b.inbuf.write (datagram.take (etFilenameLength + 4))
    ((List.length_take_le _ _).trans (by decide))
  if getWords 3 inbuf.1 ≠ magicInts then ({ b with inbuf }, false)
  else if ntohl ((inbuf.1.drop 12).take 4) ≠ etVersion then ({ b with inbuf }, false)
  else
    let length := (ntohl ((inbuf.1.drop 16).take 4)).toInt
    if h : length < 1 ∨ length > etFilenameLength then ({ b with inbuf }, false)
    else
      let filename := b.filename.write ((inbuf.1.drop 20).take length.toNat)
        ((List.length_take_le _ _).trans (Int.toNat_le.mpr (not_lt.mp (not_or.mp h).2)))
      -- `strcmp` ends within the array, for the system's own name ends there.
      ({ inbuf, filename }, CStr.ofBuffer filename.1 = name.1)

/-- The datagrams of a sequence that the thread answers. -/
def answered (name : Str etFilenameLength) : CastBuffers → List (List Byte) → List (List Byte)
  | _, [] => []
  | b, d :: ds =>
      if (castReceive name b d).2 then d :: answered name (castReceive name b d).1 ds
      else answered name (castReceive name b d).1 ds

/-- The length that a request may declare. -/
def NameLength (length : Word) : Prop := 1 ≤ length.toInt ∧ length.toInt ≤ etFilenameLength

instance (length : Word) : Decidable (NameLength length) :=
  inferInstanceAs (Decidable (_ ∧ _))

/-- What the thread finds in `inbuf`. -/
def CastBuffers.received (b : CastBuffers) (datagram : List Byte) : List Byte :=
  overwrite b.inbuf.1 (datagram.take (etFilenameLength + 4))

theorem CastBuffers.length_received (b : CastBuffers) (datagram : List Byte) :
    (b.received datagram).length = requestSize := by
  have htake : (datagram.take (etFilenameLength + 4)).length ≤ requestSize :=
    (List.length_take_le _ _).trans (by decide)
  rw [received, length_overwrite (htake.trans b.inbuf.2.ge), b.inbuf.2]

/-- The name that a request declares, as it stands in an array. -/
def nameBytes (inbuf : List Byte) (length : Word) : List Byte :=
  (inbuf.drop 20).take length.toInt.toNat

theorem NameLength.length_nameBytes {length : Word} (h : NameLength length) {inbuf : List Byte}
    (hinbuf : inbuf.length = requestSize) : (nameBytes inbuf length).length = length.toInt.toNat := by
  obtain ⟨hpos, hle⟩ := h
  simp only [etFilenameLength, requestSize] at *
  rw [nameBytes, List.length_take, List.length_drop, hinbuf]
  omega

/-- A header at the beginning of an array, in the words that the thread reads. -/
theorem requestHeader_prefix_iff {inbuf : List Byte} (h : inbuf.length = requestSize)
    (length : Word) :
    requestHeader length <+: inbuf ↔
      getWords 3 inbuf = magicInts ∧ ntohl ((inbuf.drop 12).take 4) = etVersion ∧
        ntohl ((inbuf.drop 16).take 4) = length := by
  have hwords : getWords 5 inbuf
      = getWords 3 inbuf ++ [ntohl ((inbuf.drop 12).take 4), ntohl ((inbuf.drop 16).take 4)] := by
    simp [getWords, List.drop_drop]
  have hsize : 4 * (magicInts ++ [etVersion, length]).length ≤ inbuf.length := by
    rw [h]
    show 4 * 5 ≤ requestSize
    decide
  rw [requestHeader, putWords_prefix_iff hsize]
  show getWords 5 inbuf = _ ↔ _
  rw [hwords]
  constructor
  · intro heq
    obtain ⟨hmagic, hrest⟩ := List.append_inj heq (by simp [magicInts])
    exact ⟨hmagic, by simpa using hrest⟩
  · rintro ⟨hmagic, hversion, hlength⟩
    rw [hmagic, hversion, hlength]

/-- **When the thread answers**: its array begins with a header, and the name behind it, over
what the other array held, begins with its own. -/
theorem castReceive_iff (name : Str etFilenameLength) (b : CastBuffers) (d : List Byte) :
    (castReceive name b d).2 = true ↔
      ∃ length, NameLength length ∧ requestHeader length <+: b.received d ∧
        name.1.put <+: overwrite b.filename.1 (nameBytes (b.received d) length) := by
  have hreceived : (b.inbuf.write (d.take (etFilenameLength + 4))
      ((List.length_take_le _ _).trans (by decide))).1 = b.received d := rfl
  have hlen := b.length_received d
  simp only [castReceive, hreceived]
  split_ifs with hmagic hversion hlength
  · refine iff_of_false not_false ?_
    rintro ⟨length, -, hheader, -⟩
    exact hmagic ((requestHeader_prefix_iff hlen length).mp hheader).1
  · refine iff_of_false not_false ?_
    rintro ⟨length, -, hheader, -⟩
    exact hversion ((requestHeader_prefix_iff hlen length).mp hheader).2.1
  · refine iff_of_false not_false ?_
    rintro ⟨length, ⟨hpos, hle⟩, hheader, -⟩
    obtain ⟨-, -, rfl⟩ := (requestHeader_prefix_iff hlen length).mp hheader
    rcases hlength with hlt | hgt
    · exact absurd hpos (not_le.mpr hlt)
    · exact absurd hle (not_le.mpr hgt)
  · set length := ntohl (((b.received d).drop 16).take 4) with hlengthEq
    obtain ⟨hpos, hle⟩ := not_or.mp hlength
    have hname : NameLength length := ⟨not_lt.mp hpos, not_lt.mp hle⟩
    have hheader : requestHeader length <+: b.received d :=
      (requestHeader_prefix_iff hlen length).mpr ⟨not_not.mp hmagic, not_not.mp hversion, rfl⟩
    have hroom : (nameBytes (b.received d) length).length ≤ b.filename.1.length := by
      rw [hname.length_nameBytes hlen, b.filename.2]
      exact Int.toNat_le.mpr hname.2
    have hfits : name.1.bytes.length
        < (overwrite b.filename.1 (nameBytes (b.received d) length)).length := by
      rw [length_overwrite hroom, b.filename.2]
      exact name.2
    rw [decide_eq_true_iff]
    show CStr.ofBuffer (overwrite b.filename.1 (nameBytes (b.received d) length)) = name.1 ↔ _
    rw [CStr.ofBuffer_eq_iff hfits]
    constructor
    · intro hput
      exact ⟨length, hname, hheader, hput⟩
    · rintro ⟨other, -, hother, hput⟩
      obtain ⟨-, -, rfl⟩ := (requestHeader_prefix_iff hlen other).mp hother
      exact hput

/-! ## What a datagram can make the thread do -/

/-- The datagram is a request for the system: it brings the header, as many bytes as that
declares, and among them the name with its zero byte. -/
def Asks (name : Str etFilenameLength) (d : List Byte) : Prop :=
  ∃ length text, NameLength length ∧ text.length = length.toInt.toNat ∧ name.1.put <+: text ∧
    requestHeader length ++ text <+: d

/-- What the thread takes of the datagram does not differ from a request for the system, as far
as it goes. -/
def AsksInPart (name : Str etFilenameLength) (d : List Byte) : Prop :=
  ∃ length text, NameLength length ∧ text.length = length.toInt.toNat ∧ Agree text name.1.put ∧
    Agree (d.take (etFilenameLength + 4)) (requestHeader length ++ text)

theorem header_append_nameBytes {length : Word} {inbuf : List Byte}
    (h : requestHeader length <+: inbuf) :
    requestHeader length ++ nameBytes inbuf length <+: inbuf := by
  obtain ⟨rest, rfl⟩ := h
  rw [nameBytes, List.drop_left' (length_requestHeader length), List.prefix_append_right_inj]
  exact List.take_prefix _ _

theorem nameBytes_eq {length : Word} {text inbuf : List Byte}
    (htext : text.length = length.toInt.toNat) (h : requestHeader length ++ text <+: inbuf) :
    nameBytes inbuf length = text := by
  obtain ⟨rest, rfl⟩ := h
  rw [nameBytes, List.append_assoc, List.drop_left' (length_requestHeader length),
    List.take_left' htext]

/-- **A datagram that agrees with a request is answered when the arrays happen to hold the rest**,
and no other is. -/
theorem exists_castReceive_iff (name : Str etFilenameLength) (d : List Byte) :
    (∃ b, (castReceive name b d).2 = true) ↔ AsksInPart name d := by
  constructor
  · rintro ⟨b, hb⟩
    obtain ⟨length, hlength, hheader, hput⟩ := (castReceive_iff name b d).mp hb
    refine ⟨length, nameBytes (b.received d) length, hlength,
      hlength.length_nameBytes (b.length_received d), ?_, ?_⟩
    · exact agree_of_prefix (prefix_overwrite _ _) hput
    · exact agree_of_prefix (prefix_overwrite _ _) (header_append_nameBytes hheader)
  · rintro ⟨length, text, hlength, htext, hname, hd⟩
    have htextLe : text.length ≤ etFilenameLength := by
      rw [htext]
      exact Int.toNat_le.mpr hlength.2
    have hsize : (requestHeader length ++ text).length ≤ requestSize := by
      rw [List.length_append, length_requestHeader]
      simp only [requestSize, etFilenameLength] at *
      omega
    have hnameSize : name.1.put.length ≤ etFilenameLength := by
      rw [CStr.length_put]
      exact name.2
    obtain ⟨inbuf, hinbuf⟩ := Mem.exists_prefix hsize
    obtain ⟨filename, hfilename⟩ := Mem.exists_prefix hnameSize
    have hreceived : requestHeader length ++ text <+: overwrite inbuf.1 (d.take (etFilenameLength + 4)) :=
      hd.prefix_overwrite hinbuf
    refine ⟨⟨inbuf, filename⟩, (castReceive_iff _ _ _).mpr ⟨length, hlength, ?_, ?_⟩⟩
    · exact (List.prefix_append _ _).trans hreceived
    · show name.1.put <+: overwrite filename.1 (nameBytes (overwrite inbuf.1 _) length)
      rw [nameBytes_eq htext hreceived]
      exact hname.prefix_overwrite hfilename

/-- What one round can do, every round of a run can. -/
theorem exists_of_mem_answered {name : Str etFilenameLength} {ds : List (List Byte)} :
    ∀ {b : CastBuffers} {d : List Byte}, d ∈ answered name b ds →
      d ∈ ds ∧ ∃ b', (castReceive name b' d).2 = true := by
  induction ds with
  | nil =>
      intro b d hd
      exact absurd hd List.not_mem_nil
  | cons first rest ih =>
      intro b d hd
      rw [answered] at hd
      split_ifs at hd with hfirst
      · rcases List.mem_cons.mp hd with rfl | hd
        · exact ⟨List.mem_cons_self, b, hfirst⟩
        · obtain ⟨hmem, hanswers⟩ := ih hd
          exact ⟨List.mem_cons_of_mem first hmem, hanswers⟩
      · obtain ⟨hmem, hanswers⟩ := ih hd
        exact ⟨List.mem_cons_of_mem first hmem, hanswers⟩

/-- **The datagrams after which the thread can be relied on**: those that either bring a whole
request or differ from one in what they bring. -/
theorem answers_only_requests_iff (name : Str etFilenameLength) (sent : Set (List Byte)) :
    (∀ b ds, (∀ d ∈ ds, d ∈ sent) → ∀ d ∈ answered name b ds, Asks name d) ↔
      ∀ d ∈ sent, AsksInPart name d → Asks name d := by
  constructor
  · intro hruns d hd hpart
    obtain ⟨b, hb⟩ := (exists_castReceive_iff name d).mpr hpart
    refine hruns b [d] (by simpa using hd) d ?_
    rw [answered, if_pos hb]
    exact List.mem_cons_self
  · intro hsent b ds hds d hd
    obtain ⟨hmem, hb⟩ := exists_of_mem_answered hd
    exact hsent d (hds d hmem) ((exists_castReceive_iff name d).mp hb)

/-! ## Which names are recognised -/

/-- The request for the name is answered by the system of that name, and by no other, whatever
the client and the threads have in their arrays. -/
def Recognised (etname : Str etFilenameLength) : Prop :=
  ∀ (outbuf : Mem requestSize) (name : Str etFilenameLength) (b : CastBuffers),
    (castReceive name b (findRequest outbuf etname)).2 = true ↔ name = etname

theorem nameLength_size (etname : Str etFilenameLength) :
    etname.1.size.toInt = etname.1.bytes.length + 1 := by
  have hlt : etname.1.bytes.length < 100 := etname.2
  have hsize : etname.1.size.toNat = etname.1.bytes.length + 1 := Str.toNat_size (by decide) etname
  rw [BitVec.toInt_eq_toNat_of_lt (by omega), hsize]
  rfl

/-- The name follows the header when both fit in what the thread takes. -/
theorem findRequest_prefix_received {etname : Str etFilenameLength}
    (h : etname.1.bytes.length < 84) (outbuf : Mem requestSize) (b : CastBuffers) :
    requestHeader etname.1.size ++ etname.1.put <+: b.received (findRequest outbuf etname) := by
  have hshort : (requestHeader etname.1.size ++ etname.1.put).length ≤ etFilenameLength + 4 := by
    rw [List.length_append, length_requestHeader, CStr.length_put]
    show _ ≤ 104
    omega
  refine List.IsPrefix.trans ?_ (prefix_overwrite _ _)
  exact List.prefix_take_iff.mpr ⟨prefix_overwrite _ _, hshort⟩

/-- Byte 84 of the name is not what a longer request brings. -/
theorem getElem?_received (b : CastBuffers) (d : List Byte) :
    (b.received d)[104]? = b.inbuf.1[104]? := by
  rw [CastBuffers.received, getElem?_overwrite, if_neg]
  exact not_lt.mpr (List.length_take_le _ _)

/-- **Which names are recognised**: those that arrive with their zero byte, for which 84 bytes
are left. -/
theorem recognised_iff (etname : Str etFilenameLength) :
    Recognised etname ↔ etname.1.bytes.length < 84 := by
  constructor
  · intro hrec
    by_contra hlong
    have hput : 84 < etname.1.put.length := by
      rw [CStr.length_put]
      omega
    set y := etname.1.put[84] with hy
    -- Both arrays hold a byte that the name does not have at that place.
    let b : CastBuffers := ⟨Mem.fill _ (y + 1), Mem.fill _ (y + 1)⟩
    obtain ⟨length, -, -, hname⟩ :=
      (castReceive_iff _ _ _).mp ((hrec (Mem.fill _ 0) etname b).mpr rfl)
    set d := findRequest (Mem.fill _ 0) etname
    have hfound : (overwrite b.filename.1 (nameBytes (b.received d) length))[84]? = some (y + 1) := by
      rw [getElem?_overwrite]
      split_ifs with hbytes
      · have hlt : 84 < length.toInt.toNat :=
          hbytes.trans_le (List.length_take_le _ _)
        rw [nameBytes, List.getElem?_take_of_lt hlt, List.getElem?_drop, getElem?_received]
        exact Mem.getElem?_fill (by decide) _
      · exact Mem.getElem?_fill (by decide) _
    have hsame : some (y + 1) = some y := by
      rw [← hfound]
      exact List.prefix_iff_getElem?.mp hname 84 hput
    have hne : ∀ z : Byte, z + 1 ≠ z := by decide
    exact hne y (Option.some.inj hsame)
  · intro hshort outbuf name b
    have hrequest := findRequest_prefix_received hshort outbuf b
    have hheader : requestHeader etname.1.size <+: b.received (findRequest outbuf etname) :=
      (List.prefix_append _ _).trans hrequest
    have hsize : etname.1.put.length = etname.1.size.toInt.toNat := by
      rw [nameLength_size, CStr.length_put]
      rfl
    have hbytes := nameBytes_eq hsize hrequest
    rw [castReceive_iff]
    constructor
    · rintro ⟨length, -, hother, hname⟩
      have hlen := b.length_received (findRequest outbuf etname)
      obtain ⟨-, -, hread⟩ := (requestHeader_prefix_iff hlen length).mp hother
      obtain ⟨-, -, hreadSize⟩ := (requestHeader_prefix_iff hlen etname.1.size).mp hheader
      rw [← hread, hreadSize, hbytes] at hname
      exact Subtype.ext (CStr.eq_of_put_prefix hname (prefix_overwrite _ _))
    · rintro rfl
      have hlt : name.1.bytes.length < 100 := name.2
      refine ⟨name.1.size, ⟨?_, ?_⟩, hheader, ?_⟩
      · rw [nameLength_size]
        omega
      · rw [nameLength_size]
        show _ ≤ (100 : ℤ)
        omega
      · rw [hbytes]
        exact prefix_overwrite _ _

end EventTransfer
