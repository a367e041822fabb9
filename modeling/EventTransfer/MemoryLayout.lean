import EventTransfer.SystemConfig
import EventTransfer.Lib.Regions
import EventTransfer.Lib.Rounding

/-!
# The layout of the shared memory

`et_system_start` lays out one mapped file: the initial block, the system, the stations, the
histogram, the headers of the events and their data.  The sizes are computed in `size_t`, the
number of counters of the histogram in `int`, and the number of pages in `double` and `int`
(`et_mem_create`).  Those who open the file find the regions by the same pointer arithmetic.

* `etSystemStart` — up to where the memory is laid out; `etlOpen`, `etLook` — those who open it.
* `Sound` — the regions are apart and inside the mapping, the events' data likewise, what the
  initial block records is right, and who opens the file finds the same regions.
* `Fits` — the condition on a configuration: the bytes it needs are those of at most `2 ^ 31 - 1`
  pages, and the counters of the histogram have a number that is an `int`.
* `startsSafely_iff` — whatever is laid out is sound exactly when the configuration fits, or when
  what it asks for in 64 bits is refused by the system (`Refused`).
-/

namespace EventTransfer.MemoryLayout

open Wire Rounding

/-! ## The code -/

/-- `size_t`. -/
abbrev SizeT := BitVec 64

/-- **What the compiler and the machine fix**: the sizes of the structures, of which that of
`et_event` is recorded in 32 bits; the page size, a power of two that is an `int`; and the
conversion of a `double` that is not negative to an `int`.  What becomes of one that is too large
is left open by C. -/
structure Abi where
  etSystem : ℕ
  etStation : ℕ
  etEvent : ℕ
  etEvent_lt : etEvent < 2 ^ 32
  pageBits : ℕ
  pageBits_pos : 0 < pageBits
  pageBits_le : pageBits ≤ 30
  toInt : ℕ → ℤ
  toInt_eq : ∀ n < 2 ^ 31, toInt n = n
  toInt_range : ∀ n, -(2 ^ 31) ≤ toInt n ∧ toInt n < 2 ^ 31

/-- `getpagesize`. -/
def Abi.pagesize (abi : Abi) : ℕ := 2 ^ abi.pageBits

/-- `ET_INITIAL_SHARED_MEM_DATA_BYTES`. -/
def etInitialSharedMemDataBytes : ℕ := 64

/-- The sizes that `et_system_start` adds up. -/
structure Sizes where
  system : SizeT
  stations : SizeT
  histo : SizeT
  events : SizeT
  data : SizeT

/-- The size of all of them. -/
def Sizes.size (sizes : Sizes) : SizeT :=
  sizes.system + sizes.stations + sizes.histo + sizes.events + sizes.data

section Layout

variable (abi : Abi) (config : EtSysConfig)

/-- The sizes of the regions.  `nevents + 1` is an `int`. -/
def sizes : Sizes where
  system := .ofNat 64 abi.etSystem
  stations := .ofNat 64 abi.etStation * .ofInt 64 config.nstations
  histo := 4 * .ofInt 64 (asInt (config.nevents + 1))
  events := .ofNat 64 abi.etEvent * .ofInt 64 config.nevents
  data := .ofNat 64 config.eventSize * .ofInt 64 config.nevents

/-- The pointers of an `et_id`, as places in the mapped memory. -/
structure Pointers where
  sys : SizeT
  stats : SizeT
  histogram : SizeT
  events : SizeT
  data : SizeT

/-- The pointer arithmetic: each region begins where the one before it ends. -/
def pointers : Pointers :=
  let sys : SizeT := .ofNat 64 etInitialSharedMemDataBytes
  let stats := sys + .ofNat 64 abi.etSystem
  let histogram := stats + .ofNat 64 abi.etStation * .ofInt 64 config.nstations
  let events := histogram + 4 * .ofInt 64 (asInt (config.nevents + 1))
  let data := events + .ofNat 64 abi.etEvent * .ofInt 64 config.nevents
  { sys, stats, histogram, events, data }

end Layout

/-- The loop of `et_init_mem_event`: the data pointers of the events. -/
def dataPointers (eventSize : SizeT) : ℕ → SizeT → List SizeT
  | 0, _ => []
  | n + 1, pmem => pmem :: dataPointers eventSize n (pmem + eventSize)

/-- `et_mem`, the initial block of the file. -/
structure EtMem where
  byteOrder : Word
  systemType : Word
  majorVersion : Word
  minorVersion : Word
  numSelectInts : Word
  headerByteSize : Word
  eventByteSize : SizeT
  headerPosition : SizeT
  dataPosition : SizeT
  totalSize : SizeT
  usedSize : SizeT

/-- `ET_VERSION`. -/
def etVersion : Word := 16

/-- `ET_STATION_SELECT_INTS`. -/
def etStationSelectInts : Word := 6

/-- `ET_SYSTEM_TYPE_JAVA`. -/
def etSystemTypeJava : Word := 2

/-- `ET_ERROR_JAVASYS`. -/
def etErrorJavasys : Word := -19

/-- `et_mem_write_first_block`. -/
def etMemWriteFirstBlock (headerByteSize : Word)
    (eventByteSize headerPosition dataPosition totalByteSize usedByteSize : SizeT) : EtMem where
  byteOrder := 0x04030201
  systemType := 1
  majorVersion := etVersion
  minorVersion := 5
  numSelectInts := etStationSelectInts
  headerByteSize
  eventByteSize
  headerPosition
  dataPosition
  totalSize := totalByteSize
  usedSize := usedByteSize

/-- **The file**: its initial block, and what is read of the system. -/
structure SharedFile where
  block : EtMem
  version : Word
  nselects : Word
  bit64 : Bool
  config : EtSysConfig

/-- What the system does for `et_mem_create`: the file can be created, and the sizes it can be
given and mapped with.  No mapping has length 0. -/
structure CreateCalls where
  opens : Bool
  ftruncate : ℕ → Bool
  mmap : ℕ → Bool
  mmap_zero : mmap 0 = false

/-- `et_mem_create`: the total size of the mapped memory.  The page size is a power of two, so that
only the conversion to `double` rounds.  A size that is negative as an `off_t` is refused. -/
def etMemCreate (abi : Abi) (calls : CreateCalls) (memsize : SizeT) : Except Word SizeT :=
  let wantedsize := memsize + .ofNat 64 etInitialSharedMemDataBytes
  let numPages := abi.toInt (nearest 53 wantedsize.toNat ⌈/⌉ abi.pagesize)
  let totalsize := .ofNat 64 abi.pagesize * .ofInt 64 numPages
  if calls.opens = false then .error etErrorExists
  else if totalsize.toInt < 0 ∨ calls.ftruncate totalsize.toNat = false then .error etError
  else if calls.mmap totalsize.toNat = false then .error etError
  else .ok totalsize

/-- **What `et_system_start` meets**: the system calls of its two attempts to create the file, and
the one that exists, if there is one. -/
structure Host where
  first : CreateCalls
  attach : Except Word Unit
  beats : Bool
  remove : Except Word Unit
  second : CreateCalls

/-- What is there when the memory has been laid out. -/
structure Started where
  memsize : SizeT
  pointers : Pointers
  file : SharedFile

/-- The memory is filled: the initial block, the pointers, and the configuration that is kept in
the system. -/
def layOut (abi : Abi) (config : EtSysConfig) (totalSize : SizeT) : Started :=
  let initial : SizeT := .ofNat 64 etInitialSharedMemDataBytes
  let sizes := sizes abi config
  let block := etMemWriteFirstBlock (.ofNat 32 abi.etEvent) (.ofNat 64 config.eventSize)
    (initial + sizes.system + sizes.stations + sizes.histo)
    (initial + sizes.system + sizes.stations + sizes.histo + sizes.events)
    totalSize sizes.size
  { memsize := totalSize
    pointers := pointers abi config
    file := ⟨block, etVersion, etStationSelectInts, true, config⟩ }

/-- **`et_system_start`**, to where the memory is laid out. -/
def etSystemStart (abi : Abi) (host : Host) (config : EtSysConfig) : Except Word Started :=
  match etSystemConfigCheck config with
  | .error _ => .error etError
  | .ok () =>
      match etMemCreate abi host.first (sizes abi config).size with
      | .ok totalSize => .ok (layOut abi config totalSize)
      | .error status =>
          if status ≠ etErrorExists then .error etError
          else do
            host.attach
            -- another process is there
            if host.beats then throw etError
            host.remove
            let totalSize ← etMemCreate abi host.second (sizes abi config).size
            return layOut abi config totalSize

/-- What the system does for `et_mem_attach`: the file can be opened, its initial block can be
mapped, and then all of it. -/
structure AttachCalls where
  opens : Bool
  mapsBlock : Bool
  mapsFile : Bool

/-- `et_mem_attach`. -/
def etMemAttach (calls : AttachCalls) (block : EtMem) : Except Word EtMem :=
  if calls.opens = false ∨ calls.mapsBlock = false then .error etError
  else if block.byteOrder ≠ 0x04030201 then
    if block.byteOrder = 0x01020304 ∧ block.systemType = 0x02000000 then .error etErrorJavasys
    else .error etError
  else if block.systemType = etSystemTypeJava then .error etErrorJavasys
  else if block.majorVersion ≠ etVersion then .error etError
  else if block.numSelectInts ≠ etStationSelectInts then .error etError
  else if calls.mapsFile = false then .error etError
  else .ok block

/-- What a process knows that has opened the file. -/
@[ext]
structure Opened where
  memsize : SizeT
  pointers : Pointers

/-- `etl_open` in one attempt or, if it is to wait, in several; behind each is told whether the time
has elapsed then.  `none`: it goes on waiting. -/
def etlOpen (abi : Abi) (wait : Bool) (file : SharedFile) :
    List (AttachCalls × Bool) → Option (Except Word Opened)
  | [] => none
  | (calls, elapsed) :: attempts =>
      match etMemAttach calls file.block with
      | .error err =>
          if wait ∧ ¬ elapsed then etlOpen abi wait file attempts else some (.error err)
      | .ok info =>
          if file.nselects ≠ etStationSelectInts then some (.error etError)
          else if file.bit64 = false then some (.error etError)
          else some (.ok ⟨info.totalSize, pointers abi file.config⟩)

/-- `et_look`. -/
def etLook (abi : Abi) (filename : Option String) (calls : AttachCalls) (file : SharedFile) :
    Except Word Opened :=
  match filename with
  | none => .error etError
  | some filename =>
      if etFilenameLength - 1 < filename.utf8ByteSize then .error etError
      else
        match etMemAttach calls file.block with
        | .error err => .error err
        | .ok info =>
            if file.version ≠ etVersion then .error etError
            else if file.nselects ≠ etStationSelectInts then .error etError
            else .ok ⟨info.totalSize, pointers abi file.config⟩

/-- **A configuration made by calls.** -/
def configured (calls : List SysCall) : EtSysConfig :=
  calls.foldl (fun sc call => (sc.serve call).1) etSystemConfigInit

/-! ## What is right -/

section Right

variable (abi : Abi) (config : EtSysConfig)

/-- **The bytes that are needed.** -/
def bytes : ℕ :=
  etInitialSharedMemDataBytes + abi.etSystem + abi.etStation * config.nstations.toNat +
    4 * (config.nevents.toNat + 1) + abi.etEvent * config.nevents.toNat +
    config.eventSize * config.nevents.toNat

/-- The five regions, from where they are to where they should end. -/
def regions (p : Pointers) : List Region :=
  [⟨p.sys.toNat, abi.etSystem⟩, ⟨p.stats.toNat, abi.etStation * config.nstations.toNat⟩,
    ⟨p.histogram.toNat, 4 * (config.nevents.toNat + 1)⟩,
    ⟨p.events.toNat, abi.etEvent * config.nevents.toNat⟩,
    ⟨p.data.toNat, config.eventSize * config.nevents.toNat⟩]

/-- The data of the events. -/
def dataRegions (p : Pointers) : List Region :=
  (dataPointers (.ofNat 64 config.eventSize) config.nevents.toNat p.data).map
    fun pmem => ⟨pmem.toNat, config.eventSize⟩

/-- No product and no sum has wrapped around. -/
structure Sizes.Exact (sizes : Sizes) : Prop where
  system : sizes.system.toNat = abi.etSystem
  stations : sizes.stations.toNat = abi.etStation * config.nstations.toNat
  histo : sizes.histo.toNat = 4 * (config.nevents.toNat + 1)
  events : sizes.events.toNat = abi.etEvent * config.nevents.toNat
  data : sizes.data.toNat = config.eventSize * config.nevents.toNat
  size : etInitialSharedMemDataBytes + sizes.size.toNat = bytes abi config

/-- What the initial block records is so. -/
structure EtMem.Records (block : EtMem) (started : Started) : Prop where
  headerByteSize : block.headerByteSize.toNat = abi.etEvent
  eventByteSize : block.eventByteSize.toNat = config.eventSize
  headerPosition : block.headerPosition = started.pointers.events
  dataPosition : block.dataPosition = started.pointers.data
  totalSize : block.totalSize = started.memsize
  usedSize : etInitialSharedMemDataBytes + block.usedSize.toNat = bytes abi config

/-- **Sound**: what `et_system_start` has laid out is as it should be. -/
structure Sound (started : Started) : Prop where
  exact : (sizes abi config).Exact abi config
  pages : started.memsize.toNat = abi.pagesize * (bytes abi config ⌈/⌉ abi.pagesize)
  apart : (regions abi config started.pointers).Pairwise Region.Apart
  within : ∀ r ∈ regions abi config started.pointers, etInitialSharedMemDataBytes ≤ r.start ∧
    r.stop ≤ started.memsize.toNat
  dataApart : (dataRegions config started.pointers).Pairwise Region.Apart
  dataWithin : ∀ r ∈ dataRegions config started.pointers,
    r.Within ⟨started.pointers.data.toNat, config.eventSize * config.nevents.toNat⟩
  records : started.file.block.Records abi config started
  etlOpen : ∀ wait attempts opened,
    etlOpen abi wait started.file attempts = some (.ok opened) →
      opened = ⟨started.memsize, started.pointers⟩
  etLook : ∀ filename calls opened, etLook abi filename calls started.file = .ok opened →
    opened = ⟨started.memsize, started.pointers⟩

/-- **The property of a configuration**: `et_system_start` fails or what it lays out is sound. -/
def StartsSafely : Prop :=
  ∀ host started, etSystemStart abi host config = .ok started → Sound abi config started

/-- **It fits**: the counters have a number that is an `int`, so do the pages, and as a `double`
the size is not rounded down onto a page. -/
structure Fits : Prop where
  counters : config.nevents + 1 < 2 ^ 31
  pages : bytes abi config ≤ (2 ^ 31 - 1) * abi.pagesize
  rounding : abi.pagesize ∣ bytes abi config ∨
    grain 53 (bytes abi config) < 2 * (bytes abi config % abi.pagesize)

/-- The bytes that are asked for: those that are needed, with the number of counters as an `int`,
in 64 bits. -/
def askedFor : ℕ :=
  ((bytes abi config - 4 * (config.nevents + 1) + 4 * asInt (config.nevents + 1)) % 2 ^ 64).toNat

/-- **It is refused**: what is asked for is nothing, or it has so many pages that their number is
no `int`, and the machine makes one of it that is not positive.  No file gets such a size. -/
def Refused : Prop :=
  askedFor abi config = 0 ∨
    2 ^ 31 ≤ nearest 53 (askedFor abi config) ⌈/⌉ abi.pagesize ∧
      abi.toInt (nearest 53 (askedFor abi config) ⌈/⌉ abi.pagesize) ≤ 0

end Right

/-! ## The arithmetic -/

theorem configured_inRange (calls : List SysCall) : (configured calls).InRange := by
  have hrun : ∀ (calls : List SysCall) (sc : EtSysConfig), sc.InRange →
      (calls.foldl (fun sc call => (sc.serve call).1) sc).InRange := by
    intro calls
    induction calls with
    | nil => exact fun sc h => h
    | cons call calls ih => exact fun sc h => ih _ (h.serve call)
  exact hrun calls _ kept_init.inRange

theorem toNat_size {n : ℕ} (h : n < 2 ^ 64) : (BitVec.ofNat 64 n).toNat = n := by
  rw [BitVec.toNat_ofNat, Nat.mod_eq_of_lt h]

/-- An `int` that is not negative, as a `size_t`. -/
theorem ofInt_of_nonneg {v : ℤ} (h : 0 ≤ v) : BitVec.ofInt 64 v = BitVec.ofNat 64 v.toNat := by
  rw [← BitVec.ofInt_natCast, Int.toNat_of_nonneg h]

theorem Abi.pagesize_pos (abi : Abi) : 0 < abi.pagesize := Nat.two_pow_pos _

theorem Abi.pagesize_le (abi : Abi) : abi.pagesize ≤ 2 ^ 30 :=
  Nat.pow_le_pow_right (by norm_num) abi.pageBits_le

section Arithmetic

variable {abi : Abi} {config : EtSysConfig}

/-- **The size that is wanted**, in 64 bits. -/
theorem wanted_eq (h : config.InRange) :
    (sizes abi config).size + .ofNat 64 etInitialSharedMemDataBytes =
      BitVec.ofInt 64 (bytes abi config - 4 * (config.nevents + 1) +
        4 * asInt (config.nevents + 1)) := by
  obtain ⟨nevents, hnev⟩ := Int.eq_ofNat_of_zero_le (zero_le_one.trans h.nevents.1)
  obtain ⟨nstations, hnst⟩ := Int.eq_ofNat_of_zero_le (zero_le_one.trans h.nstations.1)
  have hsum : (bytes abi config : ℤ) - 4 * (config.nevents + 1) + 4 * asInt (config.nevents + 1) =
      abi.etSystem + abi.etStation * config.nstations + 4 * asInt (config.nevents + 1) +
        abi.etEvent * config.nevents + config.eventSize * config.nevents +
        etInitialSharedMemDataBytes := by
    rw [bytes, hnev, hnst, Int.toNat_natCast, Int.toNat_natCast]
    push_cast
    ring
  rw [hsum]
  simp only [BitVec.ofInt_add, BitVec.ofInt_mul, BitVec.ofInt_natCast]
  rfl

/-- The number of counters, when it is an `int`. -/
theorem asInt_counters (h : config.InRange) (hlt : config.nevents + 1 < 2 ^ 31) :
    (.ofInt 64 (asInt (config.nevents + 1)) : SizeT) = .ofNat 64 (config.nevents.toNat + 1) := by
  have hpos := h.nevents.1
  have hcount : (config.nevents + 1).toNat = config.nevents.toNat + 1 := by omega
  rw [asInt_of_lt (by omega) hlt, ofInt_of_nonneg (by omega), hcount]

/-- The sizes of the regions, in 64 bits. -/
theorem sizes_eq (h : config.InRange) (hlt : config.nevents + 1 < 2 ^ 31) :
    sizes abi config =
      { system := .ofNat 64 abi.etSystem
        stations := .ofNat 64 (abi.etStation * config.nstations.toNat)
        histo := .ofNat 64 (4 * (config.nevents.toNat + 1))
        events := .ofNat 64 (abi.etEvent * config.nevents.toNat)
        data := .ofNat 64 (config.eventSize * config.nevents.toNat) } := by
  have hev : 0 ≤ config.nevents := zero_le_one.trans h.nevents.1
  have hstat : 0 ≤ config.nstations := zero_le_one.trans h.nstations.1
  rw [sizes, asInt_counters h hlt, ofInt_of_nonneg hev, ofInt_of_nonneg hstat]
  simp only [BitVec.ofNat_mul]
  rfl

/-- Where the regions begin, in 64 bits. -/
theorem pointers_eq (h : config.InRange) (hlt : config.nevents + 1 < 2 ^ 31) :
    pointers abi config =
      { sys := .ofNat 64 etInitialSharedMemDataBytes
        stats := .ofNat 64 (etInitialSharedMemDataBytes + abi.etSystem)
        histogram := .ofNat 64 (etInitialSharedMemDataBytes + abi.etSystem +
          abi.etStation * config.nstations.toNat)
        events := .ofNat 64 (etInitialSharedMemDataBytes + abi.etSystem +
          abi.etStation * config.nstations.toNat + 4 * (config.nevents.toNat + 1))
        data := .ofNat 64 (etInitialSharedMemDataBytes + abi.etSystem +
          abi.etStation * config.nstations.toNat + 4 * (config.nevents.toNat + 1) +
          abi.etEvent * config.nevents.toNat) } := by
  have hev : 0 ≤ config.nevents := zero_le_one.trans h.nevents.1
  have hstat : 0 ≤ config.nstations := zero_le_one.trans h.nstations.1
  rw [pointers, asInt_counters h hlt, ofInt_of_nonneg hev, ofInt_of_nonneg hstat]
  simp only [BitVec.ofNat_add, BitVec.ofNat_mul]
  rfl

/-- The loop over the events puts their data one behind the other. -/
theorem dataPointers_eq (size n start : ℕ) (hlt : start + size * n < 2 ^ 64) :
    (dataPointers (.ofNat 64 size) n (.ofNat 64 start)).map
        (fun pmem => (⟨pmem.toNat, size⟩ : Region)) =
      Region.layOut start (List.replicate n size) := by
  induction n generalizing start with
  | zero => rfl
  | succ n ih =>
      have hnext : start + size + size * n < 2 ^ 64 := by
        rw [Nat.mul_succ] at hlt
        omega
      rw [dataPointers, List.map_cons, toNat_size (by omega), ← BitVec.ofNat_add, ih _ hnext]
      rfl

/-! ### A configuration that fits -/

theorem Fits.bytes_lt (h : Fits abi config) : bytes abi config < 2 ^ 61 :=
  calc bytes abi config
      ≤ (2 ^ 31 - 1) * abi.pagesize := h.pages
    _ ≤ (2 ^ 31 - 1) * 2 ^ 30 := Nat.mul_le_mul_left _ abi.pagesize_le
    _ < 2 ^ 61 := by norm_num

theorem Fits.sizes_exact (h : Fits abi config) (hrange : config.InRange) :
    (sizes abi config).Exact abi config := by
  have hlt := h.bytes_lt
  rw [sizes_eq hrange h.counters]
  unfold bytes at hlt
  constructor
  · exact toNat_size (by omega)
  · exact toNat_size (by omega)
  · exact toNat_size (by omega)
  · exact toNat_size (by omega)
  · exact toNat_size (by omega)
  · rw [Sizes.size]
    dsimp only
    rw [← BitVec.ofNat_add, ← BitVec.ofNat_add, ← BitVec.ofNat_add, ← BitVec.ofNat_add,
      toNat_size (by omega), bytes]
    omega

theorem Fits.regions_eq (h : Fits abi config) (hrange : config.InRange) :
    regions abi config (pointers abi config) =
      Region.layOut etInitialSharedMemDataBytes [abi.etSystem,
        abi.etStation * config.nstations.toNat, 4 * (config.nevents.toNat + 1),
        abi.etEvent * config.nevents.toNat, config.eventSize * config.nevents.toNat] := by
  have hlt := h.bytes_lt
  unfold bytes at hlt
  rw [regions, pointers_eq hrange h.counters]
  dsimp only
  rw [toNat_size (by omega), toNat_size (by omega), toNat_size (by omega),
    toNat_size (by omega), toNat_size (by omega)]
  rfl

/-! ### What is laid out -/

/-- Whatever `et_system_start` lays out, it has been able to create the memory for. -/
theorem etSystemStart_ok {host : Host} {started : Started}
    (h : etSystemStart abi host config = .ok started) :
    ∃ calls totalSize,
      etMemCreate abi calls (sizes abi config).size = .ok totalSize ∧
        started = layOut abi config totalSize := by
  unfold etSystemStart at h
  split at h
  · cases h
  split at h
  case h_1 totalSize hcreate => exact ⟨host.first, totalSize, hcreate, (Except.ok.inj h).symm⟩
  case h_2 =>
    split at h
    · cases h
    cases hattach : host.attach with
    | error err => rw [hattach] at h; cases h
    | ok =>
        cases hbeats : host.beats with
        | true => rw [hattach, hbeats] at h; cases h
        | false =>
            cases hremove : host.remove with
            | error err => rw [hattach, hbeats, hremove] at h; cases h
            | ok =>
                rw [hattach, hbeats, hremove] at h
                cases hcreate : etMemCreate abi host.second
                    (sizes abi config).size with
                | error err => rw [hcreate] at h; cases h
                | ok totalSize =>
                    rw [hcreate] at h
                    exact ⟨host.second, totalSize, hcreate, (Except.ok.inj h).symm⟩

/-- The number of pages that `et_mem_create` computes. -/
def numPages (abi : Abi) (config : EtSysConfig) : ℤ :=
  abi.toInt (nearest 53 (askedFor abi config) ⌈/⌉ abi.pagesize)

/-- The total size that it computes. -/
def totalSize (abi : Abi) (config : EtSysConfig) : SizeT :=
  .ofNat 64 abi.pagesize * .ofInt 64 (numPages abi config)

theorem etMemCreate_eq (h : config.InRange) (calls : CreateCalls) :
    etMemCreate abi calls (sizes abi config).size =
      if calls.opens = false then .error etErrorExists
      else if (totalSize abi config).toInt < 0 ∨
        calls.ftruncate (totalSize abi config).toNat = false then .error etError
      else if calls.mmap (totalSize abi config).toNat = false then .error etError
      else .ok (totalSize abi config) := by
  have hasked : ((sizes abi config).size + .ofNat 64 etInitialSharedMemDataBytes).toNat =
      askedFor abi config := by
    rw [wanted_eq h, BitVec.toNat_ofInt, askedFor]
    rfl
  rw [totalSize, numPages, ← hasked]
  rfl

/-- It is the size of that many pages. -/
theorem toInt_totalSize (abi : Abi) (config : EtSysConfig) :
    (totalSize abi config).toInt = abi.pagesize * numPages abi config ∧
      abi.pagesize * numPages abi config < 2 ^ 61 := by
  have hrange := abi.toInt_range (nearest 53 (askedFor abi config) ⌈/⌉ abi.pagesize)
  rw [← numPages] at hrange
  have hpage : (abi.pagesize : ℤ) ≤ 2 ^ 30 := by
    have := abi.pagesize_le
    norm_num at this ⊢
    exact_mod_cast this
  have hlo : -(2 ^ 61) ≤ abi.pagesize * numPages abi config := by nlinarith
  have hhi : abi.pagesize * numPages abi config < 2 ^ 61 := by
    have : (0 : ℤ) < abi.pagesize := by exact_mod_cast abi.pagesize_pos
    nlinarith
  refine ⟨?_, hhi⟩
  rw [totalSize, ← BitVec.ofInt_natCast, ← BitVec.ofInt_mul]
  exact BitVec.toInt_ofInt_eq_self (by norm_num) (by norm_num; omega) (by norm_num; omega)

theorem toNat_totalSize (h : 0 < numPages abi config) :
    (totalSize abi config).toNat = abi.pagesize * (numPages abi config).toNat := by
  obtain ⟨n, hn⟩ := Int.eq_ofNat_of_zero_le h.le
  have hlt := (toInt_totalSize abi config).2
  rw [hn] at hlt
  have hsize : abi.pagesize * n < 2 ^ 61 := by exact_mod_cast hlt
  rw [totalSize, hn, BitVec.ofInt_natCast, Int.toNat_natCast, ← BitVec.ofNat_mul,
    toNat_size (by omega)]

/-- Memory is created for a positive number of pages only. -/
theorem etMemCreate_ok (h : config.InRange) {calls : CreateCalls} {size : SizeT}
    (hok : etMemCreate abi calls (sizes abi config).size = .ok size) :
    size = totalSize abi config ∧ 0 < numPages abi config := by
  rw [etMemCreate_eq h] at hok
  split at hok
  · cases hok
  split at hok
  · cases hok
  split at hok
  · cases hok
  case isFalse hsize hmap =>
    refine ⟨(Except.ok.inj hok).symm, ?_⟩
    by_contra hneg
    have hzero : numPages abi config = 0 := by
      have hsign := not_or.mp hsize
      rw [(toInt_totalSize abi config).1] at hsign
      have hpos : (0 : ℤ) < abi.pagesize := by exact_mod_cast abi.pagesize_pos
      exact le_antisymm (not_lt.mp hneg) (le_of_not_gt fun hlt =>
        hsign.1 (mul_neg_of_pos_of_neg hpos hlt))
    rw [totalSize, hzero] at hmap
    exact hmap (by simpa using calls.mmap_zero)

/-! ### Those who open the file -/

theorem etMemAttach_ok {calls : AttachCalls} {block info : EtMem}
    (h : etMemAttach calls block = .ok info) : info = block := by
  unfold etMemAttach at h
  split_ifs at h
  exact (Except.ok.inj h).symm

/-- Whoever opens the file finds the regions of the configuration that is kept in it. -/
theorem etlOpen_ok {wait : Bool} {file : SharedFile} {attempts : List (AttachCalls × Bool)}
    {opened : Opened} (h : etlOpen abi wait file attempts = some (.ok opened)) :
    opened = ⟨file.block.totalSize, pointers abi file.config⟩ := by
  induction attempts with
  | nil => cases h
  | cons attempt attempts ih =>
      rw [etlOpen] at h
      split at h
      case h_1 =>
        split at h
        · exact ih h
        · cases h
      case h_2 info hattach =>
        split at h
        · cases h
        split at h
        · cases h
        rw [← etMemAttach_ok hattach]
        exact (Except.ok.inj (Option.some.inj h)).symm

theorem etLook_ok {filename : Option String} {calls : AttachCalls} {file : SharedFile}
    {opened : Opened} (h : etLook abi filename calls file = .ok opened) :
    opened = ⟨file.block.totalSize, pointers abi file.config⟩ := by
  unfold etLook at h
  split at h
  · cases h
  split at h
  · cases h
  split at h
  · cases h
  case h_2 info hattach =>
    split_ifs at h
    rw [← etMemAttach_ok hattach]
    exact (Except.ok.inj h).symm

/-! ### The equivalence -/

theorem two_mul_grain_dvd (h : bytes abi config ≤ (2 ^ 31 - 1) * abi.pagesize) :
    2 * grain 53 (bytes abi config) ∣ abi.pagesize := by
  obtain ⟨k, hk⟩ := Nat.exists_eq_add_of_le' (show 1 ≤ abi.pageBits from abi.pageBits_pos)
  have hpage : abi.pagesize = 2 * 2 ^ k := by rw [Abi.pagesize, hk, pow_succ']
  have hlt : bytes abi config < 2 ^ (53 + k) := by
    calc bytes abi config
        ≤ (2 ^ 31 - 1) * abi.pagesize := h
      _ = (2 ^ 31 - 1) * 2 * 2 ^ k := by rw [hpage, Nat.mul_assoc]
      _ < 2 ^ 53 * 2 ^ k := Nat.mul_lt_mul_of_pos_right (by norm_num) (Nat.two_pow_pos _)
      _ = 2 ^ (53 + k) := (pow_add ..).symm
  rw [hpage]
  exact Nat.mul_dvd_mul_left 2 (grain_dvd hlt)

/-- Where the bytes that are needed are asked for, their pages are counted rightly exactly when
rounding does not lose one. -/
theorem numPages_eq_iff (hasked : askedFor abi config = bytes abi config)
    (hpages : bytes abi config ≤ (2 ^ 31 - 1) * abi.pagesize) :
    numPages abi config = (bytes abi config ⌈/⌉ abi.pagesize : ℕ) ↔
      abi.pagesize ∣ bytes abi config ∨
        grain 53 (bytes abi config) < 2 * (bytes abi config % abi.pagesize) := by
  have hdvd := two_mul_grain_dvd hpages
  have hgrain : grain 53 (bytes abi config) ∣ abi.pagesize := (Dvd.intro_left 2 rfl).trans hdvd
  have hround : nearest 53 (bytes abi config) ⌈/⌉ abi.pagesize ≤ 2 ^ 31 - 1 := by
    refine (ceilDiv_le_iff_le_mul abi.pagesize_pos).mpr (nearest_le (hgrain.mul_right _) ?_)
    rwa [Nat.mul_comm]
  rw [← nearest_ceilDiv_eq_iff abi.pagesize_pos hdvd, numPages, hasked,
    abi.toInt_eq _ (by omega), Nat.cast_inj]

theorem Fits.askedFor_eq (h : Fits abi config) (hrange : config.InRange) :
    askedFor abi config = bytes abi config := by
  have hlt := h.bytes_lt
  have hev := hrange.nevents.1
  rw [askedFor, asInt_of_lt (by omega) h.counters]
  omega

/-- **A configuration that fits is laid out soundly.** -/
theorem Fits.sound (h : Fits abi config) (hrange : config.InRange) {host : Host}
    {started : Started} (hok : etSystemStart abi host config = .ok started) :
    Sound abi config started := by
  obtain ⟨calls, size, hcreate, rfl⟩ := etSystemStart_ok hok
  obtain ⟨rfl, hpos⟩ := etMemCreate_ok hrange hcreate
  have hpages := (numPages_eq_iff (h.askedFor_eq hrange) h.pages).mpr h.rounding
  have hmapped : (totalSize abi config).toNat =
      abi.pagesize * (bytes abi config ⌈/⌉ abi.pagesize) := by
    rw [toNat_totalSize hpos, hpages, Int.toNat_natCast]
  have hcovered : bytes abi config ≤ (totalSize abi config).toNat := by
    rw [hmapped]
    exact (ceilDiv_le_iff_le_mul abi.pagesize_pos).mp le_rfl
  have hbytes := h.bytes_lt
  have hexact := h.sizes_exact hrange
  have hregions := h.regions_eq hrange
  have hpointers := @pointers_eq abi config hrange h.counters
  have hsizes := @sizes_eq abi config hrange h.counters
  have hdata : dataRegions config (pointers abi config) = Region.layOut
      (pointers abi config).data.toNat (List.replicate config.nevents.toNat config.eventSize) := by
    unfold bytes at hbytes
    rw [dataRegions, hpointers]
    dsimp only
    rw [dataPointers_eq _ _ _ (by omega), toNat_size (by omega)]
  constructor
  · exact hexact
  · exact hmapped
  · show (regions abi config (pointers abi config)).Pairwise Region.Apart
    rw [hregions]
    exact Region.layOut_apart _ _
  · intro r hr
    have hr' : r ∈ regions abi config (pointers abi config) := hr
    rw [hregions] at hr'
    obtain ⟨hstart, hstop⟩ := Region.layOut_within hr'
    refine ⟨hstart, hstop.trans (le_trans ?_ hcovered)⟩
    simp only [Region.stop, List.sum_cons, List.sum_nil, bytes]
    omega
  · show (dataRegions config (pointers abi config)).Pairwise Region.Apart
    rw [hdata]
    exact Region.layOut_apart _ _
  · intro r hr
    have hr' : r ∈ dataRegions config (pointers abi config) := hr
    rw [hdata] at hr'
    have hwithin := Region.layOut_within hr'
    rwa [List.sum_replicate, smul_eq_mul, Nat.mul_comm] at hwithin
  · constructor
    · exact Nat.mod_eq_of_lt abi.etEvent_lt
    · exact toNat_size hrange.eventSize.2
    · show _ = (pointers abi config).events
      simp only [layOut, etMemWriteFirstBlock, hsizes, hpointers, ← BitVec.ofNat_add]
    · show _ = (pointers abi config).data
      simp only [layOut, etMemWriteFirstBlock, hsizes, hpointers, ← BitVec.ofNat_add]
    · rfl
    · exact hexact.size
  · exact fun wait attempts opened hopen => etlOpen_ok hopen
  · exact fun filename calls opened hlook => etLook_ok hlook

/-- What is refused has no positive number of pages. -/
theorem refused_iff : Refused abi config ↔ numPages abi config ≤ 0 := by
  rw [Refused, numPages]
  have hzero : askedFor abi config = 0 ↔ nearest 53 (askedFor abi config) ⌈/⌉ abi.pagesize = 0 := by
    constructor
    · intro hnone
      rw [hnone, nearest_of_dvd (dvd_zero _), zero_ceilDiv]
    · intro hnone
      by_contra hsome
      have hpos := nearest_pos (p := 53) (by norm_num) (Nat.pos_of_ne_zero hsome)
      have := (ceilDiv_le_iff_le_mul abi.pagesize_pos).mp hnone.le
      omega
  by_cases hlt : nearest 53 (askedFor abi config) ⌈/⌉ abi.pagesize < 2 ^ 31
  · rw [hzero, abi.toInt_eq _ hlt]
    omega
  · have hne : askedFor abi config ≠ 0 := fun hnone => hlt (by
      rw [hzero.mp hnone]
      norm_num)
    rw [or_iff_right hne, and_iff_right (not_lt.mp hlt)]

/-- A system on which there is room for everything. -/
def openCalls : CreateCalls where
  opens := true
  ftruncate _ := true
  mmap length := length != 0
  mmap_zero := rfl

/-- There, the file does not exist. -/
def openHost : Host where
  first := openCalls
  attach := .ok ()
  beats := false
  remove := .ok ()
  second := openCalls

theorem etSystemStart_openHost (hrange : config.InRange)
    (hok : etSystemConfigCheck config = .ok ()) (hpos : 0 < numPages abi config) :
    etSystemStart abi openHost config = .ok (layOut abi config (totalSize abi config)) := by
  have hbytes : (0 : ℤ) < abi.pagesize := by exact_mod_cast abi.pagesize_pos
  have hsign : ¬ ((totalSize abi config).toInt < 0 ∨ true = false) := by
    rw [(toInt_totalSize abi config).1]
    rintro (hneg | hno)
    · exact absurd (mul_pos hbytes hpos) (not_lt.mpr hneg.le)
    · cases hno
  have hlength : ¬ ((totalSize abi config).toNat != 0) = false := by
    rw [toNat_totalSize hpos, bne_eq_false_iff_eq]
    exact (Nat.mul_pos abi.pagesize_pos (by omega)).ne'
  have hcreate : etMemCreate abi openHost.first (sizes abi config).size =
      .ok (totalSize abi config) := by
    rw [etMemCreate_eq hrange, if_neg nofun]
    exact (if_neg hsign).trans (if_neg hlength)
  unfold etSystemStart
  rw [hok]
  dsimp only
  rw [hcreate]

/-- **What is sound fits.** -/
theorem Fits.of_sound (hrange : config.InRange) (hpos : 0 < numPages abi config)
    (hsound : Sound abi config (layOut abi config (totalSize abi config))) :
    Fits abi config := by
  have hnum : (numPages abi config).toNat = bytes abi config ⌈/⌉ abi.pagesize :=
    Nat.eq_of_mul_eq_mul_left abi.pagesize_pos ((toNat_totalSize hpos).symm.trans hsound.pages)
  have hpages : bytes abi config ≤ (2 ^ 31 - 1) * abi.pagesize := by
    have hint := (abi.toInt_range (nearest 53 (askedFor abi config) ⌈/⌉ abi.pagesize)).2
    rw [← numPages] at hint
    rw [Nat.mul_comm]
    exact (ceilDiv_le_iff_le_mul abi.pagesize_pos).mp (by omega)
  have hcounters : config.nevents + 1 < 2 ^ 31 := by
    by_contra hge
    -- the largest number of events there is
    have hlast : config.nevents = 2 ^ 31 - 1 := by
      have := hrange.nevents
      omega
    have hhisto := hsound.exact.histo
    rw [sizes, hlast] at hhisto
    dsimp only at hhisto
    exact absurd hhisto (by decide)
  have hasked : askedFor abi config = bytes abi config := by
    have hlt : (2 ^ 31 - 1) * abi.pagesize ≤ (2 ^ 31 - 1) * 2 ^ 30 :=
      Nat.mul_le_mul_left _ abi.pagesize_le
    have hev := hrange.nevents.1
    rw [askedFor, asInt_of_lt (by omega) hcounters]
    omega
  refine ⟨hcounters, hpages, (numPages_eq_iff hasked hpages).mp ?_⟩
  rw [← hnum, Int.toNat_of_nonneg hpos.le]

/-- **The equivalence**, for a configuration that is accepted. -/
theorem startsSafely_iff_of_accepted (hrange : config.InRange)
    (hok : etSystemConfigCheck config = .ok ()) :
    StartsSafely abi config ↔ Fits abi config ∨ Refused abi config := by
  constructor
  · intro hsafe
    by_cases hpos : 0 < numPages abi config
    · exact .inl (.of_sound hrange hpos (hsafe _ _ (etSystemStart_openHost hrange hok hpos)))
    · exact .inr (refused_iff.mpr (not_lt.mp hpos))
  · rintro (hfits | hrefused) host started hstart
    · exact hfits.sound hrange hstart
    · obtain ⟨calls, size, hcreate, -⟩ := etSystemStart_ok hstart
      have hpos := (etMemCreate_ok hrange hcreate).2
      exact absurd hpos (not_lt.mpr (refused_iff.mp hrefused))

end Arithmetic

/-! ## The result -/

/-- **The layout of the shared memory**: for every configuration made by calls and accepted,
`et_system_start` fails or lays out the memory soundly exactly when the configuration fits or is
refused. -/
theorem startsSafely_iff (abi : Abi) (calls : List SysCall) :
    StartsSafely abi (configured calls) ↔
      (etSystemConfigCheck (configured calls) = .ok () →
        Fits abi (configured calls) ∨ Refused abi (configured calls)) := by
  by_cases hok : etSystemConfigCheck (configured calls) = .ok ()
  · rw [startsSafely_iff_of_accepted (configured_inRange calls) hok, imp_iff_right hok]
  · refine iff_of_true (fun host started hstart => ?_) fun h => absurd h hok
    unfold etSystemStart at hstart
    split at hstart
    · cases hstart
    case h_2 haccepted => exact absurd haccepted hok

/-- Linux on x86-64, where a `double` that is too large becomes the least `int`. -/
def linux : Abi where
  etSystem := 130088
  etStation := 1176
  etEvent := 232
  etEvent_lt := by norm_num
  pageBits := 12
  pageBits_pos := by norm_num
  pageBits_le := by norm_num
  toInt n := if n < 2 ^ 31 then n else -(2 ^ 31)
  toInt_eq _ hn := if_pos hn
  toInt_range n := by
    split
    · omega
    · norm_num

/-- Two events of `2 ^ 63` bytes. -/
def hugeEvents : List SysCall := [.setevents 2, .setsize 0x8000000000000000]

/-- **The data of the events are not there**: in 64 bits their size is 0, and 90 pages are
mapped. -/
theorem not_startsSafely : ¬ ∀ abi calls,
    etSystemConfigCheck (configured calls) = .ok () → StartsSafely abi (configured calls) := by
  intro h
  have hok : etSystemConfigCheck (configured hugeEvents) = .ok () := rfl
  have hpages : numPages linux (configured hugeEvents) = 90 := by decide
  have hsound := h linux hugeEvents hok _ _
    (etSystemStart_openHost (configured_inRange hugeEvents) hok (by omega))
  have hdata := (hsound.within ⟨_, (configured hugeEvents).eventSize *
    (configured hugeEvents).nevents.toNat⟩ (.tail _ (.tail _ (.tail _ (.tail _ (.head _)))))).2
  have hbytes : (configured hugeEvents).eventSize * (configured hugeEvents).nevents.toNat =
      2 ^ 64 := rfl
  have hmapped := (totalSize linux (configured hugeEvents)).isLt
  rw [Region.stop, hbytes] at hdata
  exact absurd ((Nat.le_add_left ..).trans hdata) (not_le.mpr hmapped)

end EventTransfer.MemoryLayout
