import EventTransfer.Discovery

/-!
# What a system answers

The reply of `et_cast_thread` is the same for every request: it is put into an array when the
thread starts, whose size is computed beforehand (`NetHost.bufsize`), and the whole array is
sent.  `et_findserver2` receives replies into one array of 4096 bytes and decodes them from
there.  The record for an answer is made and put at the end of the list of answers before its
reply is decoded; a reply that is rejected has its record freed and left in the list.

* `NetHost.reply_fits` — the reply fits in its array, and in the client's.
* `decodeReply_reply` — the client reads back what the system has put in.
* `answers_eq_iff` — when the list holds nothing of the replies that are rejected.
* `discovery_roundTrips_iff` — what has to be so for a request and its replies to come through.
-/

namespace EventTransfer

open Wire

/-! ## The reply -/

/-- `ET_MULTICAST`. -/
def etMulticast : Word := 0

/-- `CODA_MAXADDRESSES`. -/
def codaMaxaddresses : ℕ := 10

/-- What a `codaIpInfo` holds of one interface.  The bytes of `saddr` are in network order. -/
structure IpInfo where
  saddr : Word
  addr : Str etIpaddrstrlen
  broadcast : Str etIpaddrstrlen

/-- What the thread puts into its reply.  `canon` is that of the first interface. -/
structure NetHost where
  port : Word
  port_pos : 1 ≤ port.toNat
  port_le : port.toNat ≤ 65535
  uname : Str etMaxhostnamelen
  canon : Str etMaxhostnamelen
  ipinfo : List IpInfo
  count_le : ipinfo.length ≤ codaMaxaddresses

/-- A string with its length before it. -/
def putSized (s : CStr) : List Byte := htonl s.size ++ s.put

@[simp] theorem length_putSized (s : CStr) : (putSized s).length = s.bytes.length + 5 := by
  rw [putSized, List.length_append, length_htonl, CStr.length_put]
  omega

namespace NetHost

/-- `ipAddrCount`. -/
def count (host : NetHost) : Word := BitVec.ofNat 32 host.ipinfo.length

/-- The name by `gethostbyaddr`, or a zero where there is none. -/
def putCanon (host : NetHost) : List Byte :=
  if host.canon.1.bytes.length + 1 > 1 then putSized host.canon.1 else htonl 0

/-- What is in `outbuf`. -/
def reply (host : NetHost) : List Byte :=
  putWords (magicInts ++ [etVersion, host.port, etMulticast, 0]) ++ (putSized host.uname.1 ++
    (host.putCanon ++ (htonl host.count ++
      (host.ipinfo.flatMap (fun p => htonl p.saddr ++ putSized p.addr.1) ++
        (htonl host.count ++ host.ipinfo.flatMap (fun p => putSized p.broadcast.1))))))

/-- `bufsize`. -/
def bufsize (host : NetHost) : ℕ :=
  3 * 4 + 8 * 4 + host.uname.1.bytes.length + host.canon.1.bytes.length + 3 +
    (host.ipinfo.map fun p => 3 * 4 + p.addr.1.bytes.length + 1 + p.broadcast.1.bytes.length + 1).sum

theorem length_putCanon_le (host : NetHost) :
    host.putCanon.length ≤ host.canon.1.bytes.length + 5 := by
  rw [putCanon]
  split_ifs with h
  · rw [length_putSized]
  · rw [length_htonl]
    omega

/-- **The reply fits in its array.** -/
theorem reply_fits (host : NetHost) : host.reply.length ≤ host.bufsize := by
  have hcanon := host.length_putCanon_le
  have hinfo : ∀ ps : List IpInfo,
      (ps.flatMap fun p => htonl p.saddr ++ putSized p.addr.1).length
        + (ps.flatMap fun p => putSized p.broadcast.1).length
      = (ps.map fun p =>
          3 * 4 + p.addr.1.bytes.length + 1 + p.broadcast.1.bytes.length + 1).sum := by
    intro ps
    induction ps with
    | nil => rfl
    | cons p ps ih =>
        simp only [List.flatMap_cons, List.length_append, length_htonl, length_putSized,
          List.map_cons, List.sum_cons] at ih ⊢
        omega
  have hsum := hinfo host.ipinfo
  have hwords : (putWords (magicInts ++ [etVersion, host.port, etMulticast, 0])).length = 28 := rfl
  simp only [reply, bufsize, List.length_append, hwords, length_htonl, length_putSized] at *
  omega

/-- The array is smaller than the client's. -/
theorem bufsize_le (host : NetHost) : host.bufsize ≤ 4096 := by
  have huname : host.uname.1.bytes.length < 256 := host.uname.2
  have hcanon : host.canon.1.bytes.length < 256 := host.canon.2
  have hcount : host.ipinfo.length ≤ 10 := host.count_le
  have hsum := List.sum_le_card_nsmul
    (host.ipinfo.map fun p => 3 * 4 + p.addr.1.bytes.length + 1 + p.broadcast.1.bytes.length + 1)
    44 (by
      intro x hx
      obtain ⟨p, -, rfl⟩ := List.mem_map.mp hx
      have haddr : p.addr.1.bytes.length < 16 := p.addr.2
      have hbroadcast : p.broadcast.1.bytes.length < 16 := p.broadcast.2
      omega)
  rw [List.length_map, smul_eq_mul] at hsum
  rw [bufsize]
  omega

end NetHost

/-! ## Decoding a reply -/

/-- A `et_response`: the arrays of names as they are, the strings that are duplicated as such.
`bcastaddrs` is there when both counts are the same. -/
structure Response where
  port : Word
  castType : Word
  castIP : List Byte
  uname : List Byte
  canon : List Byte
  addrs : List Word
  ipaddrs : List CStr
  bcastaddrs : Option (List CStr)

/-- What becomes of the record for an answer. -/
inductive Verdict
  | accepted (answer : Response)
  /-- The record is freed and the decoding ends. -/
  | rejected
  /-- The record is freed in one of the loops over the addresses.  Only that loop ends, and the
  decoding goes on in memory that is not there any more. -/
  | freed

/-- `strdup` of what follows, which stays where it is. -/
def strdup : Reader CStr := fun s => if 0 ∈ s then some (CStr.ofBuffer s, s) else none

/-- A dotted address, with its length before it; `none` when that is out of range. -/
def readDotted : Reader (Option CStr) := do
  let length ← readWord
  if length.toNat < 1 ∨ length.toNat > etMaxhostnamelen then return none
  else
    let dup ← strdup
    modify (List.drop length.toNat)
    return some (dup.cut (length.toNat - 1))

/-- An address as a number and its dotted form. -/
def readAddr : Reader (Option (Word × CStr)) := do
  let addr ← readWord
  return (← readDotted).map fun dotted => (addr, dotted)

/-- `memcpy` to an array of a record that has just been made with `calloc`. -/
def callocCopy (n : ℕ) (bs : List Byte) : List Byte := overwrite (List.replicate n 0) bs

/-- The part of a reply from the addresses on. -/
def readAddresses (answer : Response) : Reader Verdict := do
  let addrCount ← readWord
  if addrCount.toInt < 0 ∨ addrCount.toInt > 20 then return .rejected
  else
    match ← readEach readAddr addrCount.toNat with
    | none => return .freed
    | some addrs =>
        let answer := { answer with addrs := addrs.map Prod.fst, ipaddrs := addrs.map Prod.snd }
        let addrCount2 ← readWord
        if addrCount2 ≠ addrCount then return .accepted answer
        else
          match ← readEach readDotted addrCount.toNat with
          | none => return .freed
          | some bcastaddrs => return .accepted { answer with bcastaddrs := some bcastaddrs }

/-- The part of a reply from the names on. -/
def readNames (answer : Response) : Reader Verdict := do
  let length ← readWord
  if length.toNat < 1 ∨ length.toNat > etMaxhostnamelen then return .rejected
  else
    let uname ← readBytes length.toNat
    let length ← readWord
    if length.toNat > etMaxhostnamelen then return .rejected
    else
      let canon ← readBytes length.toNat
      readAddresses { answer with
        uname := callocCopy etMaxhostnamelen uname, canon := callocCopy etMaxhostnamelen canon }

/-- The decoding of a reply in `et_findserver2`. -/
def readReply : Reader Verdict := do
  let magic ← readWords 3
  if magic ≠ magicInts then return .rejected
  else
    let version ← readWord
    if version ≠ etVersion then return .rejected
    else
      let serverport ← readWord
      if serverport.toInt < 1 ∨ serverport.toInt > 65536 then return .rejected
      else
        let castType ← readWord
        let length ← readWord
        if length.toNat > etIpaddrstrlen then return .rejected
        else
          let castIP ← readBytes length.toNat
          readNames {
            port := serverport
            castType
            castIP := callocCopy etIpaddrstrlen castIP
            uname := []
            canon := []
            addrs := []
            ipaddrs := []
            bcastaddrs := none }

/-- The answer in an array, if its record is not freed. -/
def decodeReply (buffer : List Byte) : Option Response :=
  match readReply.run buffer with
  | some (.accepted answer, _) => some answer
  | _ => none

/-! ## The client reads what the system has put in -/

/-- The string in an array of the record is the one that was copied there. -/
theorem ofBuffer_callocCopy {n : ℕ} (s : Str n) : CStr.ofBuffer (callocCopy n s.1.put) = s.1 := by
  have hlt : s.1.bytes.length < n := s.2
  have hlen : (callocCopy n s.1.put).length = n := by
    rw [callocCopy, length_overwrite, List.length_replicate]
    rw [CStr.length_put, List.length_replicate]
    exact hlt
  exact (CStr.ofBuffer_eq_iff (by rw [hlen]; exact hlt)).mpr (prefix_overwrite _ _)

theorem run_readDotted {n : ℕ} (hn : n ≤ etMaxhostnamelen) (s : Str n) (rest : List Byte) :
    readDotted.run (putSized s.1 ++ rest) = some (some s.1, rest) := by
  have hlt : s.1.bytes.length < n := s.2
  have hmax : etMaxhostnamelen = 256 := rfl
  have hsize : s.1.size.toNat = s.1.bytes.length + 1 := s.toNat_size (by omega)
  have hrange : ¬ (s.1.size.toNat < 1 ∨ s.1.size.toNat > etMaxhostnamelen) := by omega
  have hdup : strdup.run (s.1.put ++ rest) = some (s.1, s.1.put ++ rest) := by
    have hzero : (0 : Byte) ∈ s.1.put ++ rest := by simp [CStr.put]
    have hbuffer : CStr.ofBuffer (s.1.put ++ rest) = s.1 := by
      refine (CStr.ofBuffer_eq_iff ?_).mpr (List.prefix_append _ _)
      rw [List.length_append, CStr.length_put]
      omega
    simp only [strdup, StateT.run, if_pos hzero, hbuffer]
  rw [readDotted, putSized, List.append_assoc]
  refine run_bind_of (run_readWord _ _) ?_
  rw [if_neg hrange]
  refine run_bind_of hdup ?_
  have hdrop : (s.1.put ++ rest).drop s.1.size.toNat = rest :=
    List.drop_left' (by rw [hsize, CStr.length_put])
  have hcut : s.1.cut (s.1.size.toNat - 1) = s.1 := by
    rw [hsize, Nat.add_sub_cancel, CStr.cut_length]
  show some (some (s.1.cut _), (s.1.put ++ rest).drop _) = _
  rw [hdrop, hcut]

theorem run_readAddr (p : IpInfo) (rest : List Byte) :
    readAddr.run ((htonl p.saddr ++ putSized p.addr.1) ++ rest)
      = some (some (p.saddr, p.addr.1), rest) := by
  rw [readAddr, List.append_assoc]
  refine run_bind_of (run_readWord _ _) ?_
  exact run_bind_of (run_readDotted (by decide) p.addr rest) rfl

namespace NetHost

/-- The record for a host. -/
def response (host : NetHost) : Response where
  port := host.port
  castType := etMulticast
  castIP := callocCopy etIpaddrstrlen []
  uname := callocCopy etMaxhostnamelen host.uname.1.put
  canon := callocCopy etMaxhostnamelen
    (if host.canon.1.bytes.length + 1 > 1 then host.canon.1.put else [])
  addrs := host.ipinfo.map IpInfo.saddr
  ipaddrs := host.ipinfo.map fun p => p.addr.1
  bcastaddrs := some (host.ipinfo.map fun p => p.broadcast.1)

theorem toNat_count (host : NetHost) : host.count.toNat = host.ipinfo.length := by
  have hcount : host.ipinfo.length ≤ 10 := host.count_le
  rw [count, BitVec.toNat_ofNat, Nat.mod_eq_of_lt (by omega)]

theorem run_readAddresses (host : NetHost) (answer : Response) (rest : List Byte) :
    (readAddresses answer).run (htonl host.count ++
      (host.ipinfo.flatMap (fun p => htonl p.saddr ++ putSized p.addr.1) ++
        (htonl host.count ++ (host.ipinfo.flatMap (fun p => putSized p.broadcast.1) ++ rest))))
      = some (.accepted { answer with
          addrs := host.ipinfo.map IpInfo.saddr
          ipaddrs := host.ipinfo.map fun p => p.addr.1
          bcastaddrs := some (host.ipinfo.map fun p => p.broadcast.1) }, rest) := by
  have hcount : host.ipinfo.length ≤ 10 := host.count_le
  have hnat := host.toNat_count
  have hint : host.count.toInt = host.ipinfo.length := by
    rw [BitVec.toInt_eq_toNat_of_lt (by omega), hnat]
  have hrange : ¬ (host.count.toInt < 0 ∨ host.count.toInt > 20) := by omega
  rw [readAddresses]
  refine run_bind_of (run_readWord _ _) ?_
  rw [if_neg hrange]
  refine run_bind_of (run_readEach hnat.symm (fun p _ => run_readAddr p) _) ?_
  refine run_bind_of (run_readWord _ _) ?_
  rw [if_neg (not_not.mpr rfl)]
  refine run_bind_of
    (run_readEach hnat.symm (fun p _ => run_readDotted (by decide) p.broadcast) rest) ?_
  show some (Verdict.accepted _, rest) = _
  simp only [List.map_map, Function.comp_def]

theorem run_readNames (host : NetHost) (answer : Response) (rest : List Byte) :
    (readNames answer).run (putSized host.uname.1 ++ (host.putCanon ++ rest))
      = (readAddresses { answer with
          uname := host.response.uname, canon := host.response.canon }).run rest := by
  have huname : host.uname.1.bytes.length < 256 := host.uname.2
  have hcanon : host.canon.1.bytes.length < 256 := host.canon.2
  have hmax : etMaxhostnamelen = 256 := rfl
  have hunameSize := host.uname.toNat_size (by decide)
  have hcanonSize := host.canon.toNat_size (by decide)
  have hunameRange :
      ¬ (host.uname.1.size.toNat < 1 ∨ host.uname.1.size.toNat > etMaxhostnamelen) := by omega
  rw [readNames, putSized, List.append_assoc]
  refine run_bind_of (run_readWord _ _) ?_
  rw [if_neg hunameRange, hunameSize]
  refine run_bind_of (run_readPut _ _) ?_
  rw [putCanon, response]
  by_cases hnamed : host.canon.1.bytes.length + 1 > 1
  · have hcanonRange : ¬ host.canon.1.size.toNat > etMaxhostnamelen := by omega
    simp only [if_pos hnamed]
    rw [putSized, List.append_assoc]
    refine run_bind_of (run_readWord _ _) ?_
    rw [if_neg hcanonRange, hcanonSize]
    exact run_bind_of (run_readPut _ _) rfl
  · simp only [if_neg hnamed]
    refine run_bind_of (run_readWord _ _) ?_
    rw [if_neg (by decide)]
    exact run_bind_of (@run_readBytes 0 [] rfl rest) rfl

/-- **The client reads back what the system has put in.** -/
theorem decodeReply_reply (host : NetHost) (rest : List Byte) :
    decodeReply (host.reply ++ rest) = some host.response := by
  have hport : host.port.toNat ≤ 65535 := host.port_le
  have hpos := host.port_pos
  have hint : host.port.toInt = host.port.toNat := BitVec.toInt_eq_toNat_of_lt (by omega)
  have hrange : ¬ (host.port.toInt < 1 ∨ host.port.toInt > 65536) := by omega
  have hrun : readReply.run (host.reply ++ rest) = some (.accepted host.response, rest) := by
    have hwords : putWords (magicInts ++ [etVersion, host.port, etMulticast, 0])
        = putWords magicInts ++ (htonl etVersion ++ (htonl host.port ++
            (htonl etMulticast ++ htonl 0))) := by
      rw [putWords_append]
      simp
    rw [readReply, reply, hwords]
    simp only [List.append_assoc]
    refine run_bind_of (run_readWords (show magicInts.length = 3 from rfl) _) ?_
    rw [if_neg (not_not.mpr rfl)]
    refine run_bind_of (run_readWord _ _) ?_
    rw [if_neg (not_not.mpr rfl)]
    refine run_bind_of (run_readWord _ _) ?_
    rw [if_neg hrange]
    refine run_bind_of (run_readWord _ _) ?_
    refine run_bind_of (run_readWord _ _) ?_
    rw [if_neg (by decide)]
    refine run_bind_of (@run_readBytes 0 [] rfl _) ?_
    exact (host.run_readNames _ _).trans (host.run_readAddresses _ rest)
  rw [decodeReply, hrun]

end NetHost

/-- The record says of the host what the host has put into its reply. -/
structure Response.Describes (answer : Response) (host : NetHost) : Prop where
  port : answer.port = host.port
  uname : CStr.ofBuffer answer.uname = host.uname.1
  canon : CStr.ofBuffer answer.canon = host.canon.1
  addrs : answer.addrs = host.ipinfo.map IpInfo.saddr
  ipaddrs : answer.ipaddrs = host.ipinfo.map fun p => p.addr.1
  bcastaddrs : answer.bcastaddrs = some (host.ipinfo.map fun p => p.broadcast.1)

theorem NetHost.response_describes (host : NetHost) : host.response.Describes host where
  port := rfl
  uname := ofBuffer_callocCopy host.uname
  canon := by
    show CStr.ofBuffer (callocCopy _ (if _ then _ else _)) = _
    split_ifs with h
    · exact ofBuffer_callocCopy host.canon
    · have hempty : host.canon.1 = CStr.empty := by
        have hnil : host.canon.1.bytes = [] := List.eq_nil_of_length_eq_zero (by omega)
        cases hcanon : host.canon.1 with
        | mk bytes nulFree =>
            rw [hcanon] at hnil
            subst hnil
            rfl
      rw [hempty]
      decide
  addrs := rfl
  ipaddrs := rfl
  bcastaddrs := rfl

/-! ## The list of answers -/

/-- The size of the array that replies are received into. -/
def replySize : ℕ := 4096

/-- What `et_findserver2` has when it looks for the next reply: its array, and the list from
`answer_first` on.  `none` is a record that has been freed. -/
structure AnswerList where
  buffer : Mem replySize
  list : List (Option Response)

/-- The array after a datagram has come. -/
def receiveInto (buffer : Mem replySize) (datagram : List Byte) : Mem replySize :=
  buffer.write (datagram.take replySize) (List.length_take_le _ _)

/-- One datagram.  The new record is at the end of the list before the reply is looked at, and
`answer_prev` is set to it whatever has become of it. -/
def AnswerList.receive (s : AnswerList) (datagram : List Byte) : AnswerList where
  buffer := receiveInto s.buffer datagram
  list := s.list ++ [decodeReply (receiveInto s.buffer datagram).1]

/-- What the replies are decoded to, one after the other in the same array. -/
def decodedReplies : Mem replySize → List (List Byte) → List (Option Response)
  | _, [] => []
  | buffer, d :: ds =>
      decodeReply (receiveInto buffer d).1 :: decodedReplies (receiveInto buffer d) ds

theorem AnswerList.list_foldl (s : AnswerList) (ds : List (List Byte)) :
    (ds.foldl AnswerList.receive s).list = s.list ++ decodedReplies s.buffer ds := by
  induction ds generalizing s with
  | nil => exact (List.append_nil _).symm
  | cons d ds ih =>
      rw [List.foldl_cons, ih, decodedReplies]
      exact List.append_assoc _ _ _

/-- **When a rejected reply leaves nothing in the list**: when there is none. -/
theorem answers_eq_iff (s : AnswerList) (ds : List (List Byte)) :
    (ds.foldl AnswerList.receive s).list
        = s.list ++ (decodedReplies s.buffer ds).reduceOption.map some ↔
      none ∉ decodedReplies s.buffer ds := by
  rw [AnswerList.list_foldl, List.append_cancel_left_eq]
  induction decodedReplies s.buffer ds with
  | nil => simp
  | cons x xs ih =>
      cases x with
      | none =>
          refine iff_of_false (fun h => ?_) (fun h => h List.mem_cons_self)
          rw [List.reduceOption_cons_of_none] at h
          have hmem : none ∈ xs.reduceOption.map some := h ▸ List.mem_cons_self
          simp at hmem
      | some a =>
          rw [List.reduceOption_cons_of_some, List.map_cons, List.cons_inj_right, ih]
          simp

/-! ## Requests and replies together -/

/-- What is expected of the datagrams about the system of the given name: that its thread knows
the requests for it and answers nothing else of what is sent to it, that its reply fits and is
read back, and that a client's list of answers has those of the replies it does not reject. -/
structure DiscoveryRoundTrips (etname : Str etFilenameLength) (sent : Set (List Byte))
    (host : NetHost) (replies : List (List Byte)) : Prop where
  recognised : Recognised etname
  ignored : ∀ b ds, (∀ d ∈ ds, d ∈ sent) → ∀ d ∈ answered etname b ds, Asks etname d
  fits : host.reply.length ≤ host.bufsize
  decoded : ∀ (outbuf : Mem host.bufsize) (buffer : Mem replySize),
    ∃ answer, decodeReply (receiveInto buffer (overwrite outbuf.1 host.reply)).1 = some answer ∧
      answer.Describes host
  rejected : ∀ s : AnswerList, (replies.foldl AnswerList.receive s).list
    = s.list ++ (decodedReplies s.buffer replies).reduceOption.map some

theorem NetHost.decoded (host : NetHost) (outbuf : Mem host.bufsize) (buffer : Mem replySize) :
    decodeReply (receiveInto buffer (overwrite outbuf.1 host.reply)).1 = some host.response := by
  have hlen : (overwrite outbuf.1 host.reply).length ≤ replySize := by
    rw [length_overwrite (host.reply_fits.trans outbuf.2.ge), outbuf.2]
    exact host.bufsize_le
  have hprefix : host.reply <+: (receiveInto buffer (overwrite outbuf.1 host.reply)).1 := by
    rw [receiveInto, Mem.val_write, List.take_of_length_le hlen]
    exact (prefix_overwrite _ _).trans (prefix_overwrite _ _)
  obtain ⟨rest, hrest⟩ := hprefix
  rw [← hrest]
  exact host.decodeReply_reply rest

/-- **When requests and replies come through**: the name has less than 84 characters, every
datagram sent to the system that does not differ from a request for it in what it brings brings
all of one, and the client rejects none of the replies. -/
theorem discovery_roundTrips_iff (etname : Str etFilenameLength) (sent : Set (List Byte))
    (host : NetHost) (replies : List (List Byte)) :
    DiscoveryRoundTrips etname sent host replies ↔
      etname.1.bytes.length < 84 ∧ (∀ d ∈ sent, AsksInPart etname d → Asks etname d) ∧
        ∀ buffer, none ∉ decodedReplies buffer replies := by
  constructor
  · intro h
    refine ⟨(recognised_iff etname).mp h.recognised,
      (answers_only_requests_iff etname sent).mp h.ignored, fun buffer => ?_⟩
    exact (answers_eq_iff ⟨buffer, []⟩ replies).mp (h.rejected ⟨buffer, []⟩)
  · rintro ⟨hshort, hsent, hreplies⟩
    exact {
      recognised := (recognised_iff etname).mpr hshort
      ignored := (answers_only_requests_iff etname sent).mpr hsent
      fits := host.reply_fits
      decoded := fun outbuf buffer =>
        ⟨host.response, host.decoded outbuf buffer, host.response_describes⟩
      rejected := fun s => (answers_eq_iff s replies).mpr (hreplies s.buffer) }

/-- A datagram without any bytes, after a request for the system `/e`, is answered. -/
theorem empty_datagram_answered :
    let name : Str etFilenameLength := ⟨⟨[0x2f, 0x65], by decide⟩, by decide⟩
    let request := findRequest (Mem.fill _ 0) name
    answered name ⟨Mem.fill _ 0, Mem.fill _ 0⟩ [request, []] = [request, []] ∧
      ¬ Asks name [] := by
  refine ⟨by decide +kernel, ?_⟩
  rintro ⟨length, text, -, -, -, hprefix⟩
  have hle := hprefix.length_le
  rw [List.length_append, length_requestHeader, List.length_nil] at hle
  omega

end EventTransfer
