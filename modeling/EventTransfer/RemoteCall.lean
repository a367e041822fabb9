import EventTransfer.Lib.Exchange
import EventTransfer.StationPosition

/-!
# Remote calls

A remote client writes each station, attachment and system call as a command followed by
its arguments (`etr_…` in `et_remote.c`) and reads back a status and the output values.  The
command loop of the server (`et_command_loop`) reads the arguments, makes the local call and
writes the reply.

* `Call` lists the calls with their arguments, `Call.Out` what each gives back.
* `Call.request` and the `etr…` routines are the client's side.
* `CallCommand.read` and `Call.reply` are the server's.

All integers of a call are 32-bit words.  What a local call leaves in its output variables
when it does not set them is whatever was there before; a `Result` has a value for them all
the same, and `Call.delivers` says when the caller may look at it.
-/

namespace EventTransfer

open Wire Exchange

/-! ## Return codes -/

/-- `ET_OK`. -/
def etOk : Word := 0

/-- `ET_ERROR`. -/
def etError : Word := -1

/-- `ET_ERROR_EXISTS`. -/
def etErrorExists : Word := -3

/-- `ET_ERROR_TIMEOUT`. -/
def etErrorTimeout : Word := -5

/-- `ET_ERROR_READ`. -/
def etErrorRead : Word := -9

/-- `ET_ERROR_WRITE`. -/
def etErrorWrite : Word := -10

/-- `ET_ERROR_REMOTE`. -/
def etErrorRemote : Word := -11

/-! ## Commands -/

/-- The integer parameters of a station that can be read (`etr_station_getstuff`). -/
inductive StationGet
  | gatts
  | status
  | incnt
  | outcnt
  | gblock
  | guser
  | grestore
  | gpre
  | gcue
  | gselect
  deriving DecidableEq, Repr

/-- The integer parameters of a station that can be set (`etr_station_setstuff`). -/
inductive StationSet
  | sblock
  | suser
  | srestore
  | spre
  | scue
  deriving DecidableEq, Repr

/-- The counters of an attachment (`etr_attach_getstuff`). -/
inductive AttachGet
  | put
  | get
  | dump
  | make
  deriving DecidableEq, Repr

/-- The integer parameters of the system (`etr_system_getstuff`). -/
inductive SystemGet
  | tmp
  | tmpmax
  | stat
  | statmax
  | proc
  | procmax
  | att
  | attmax
  | hbeat
  | pid
  | grp
  deriving DecidableEq, Repr

/-- The names in the configuration of a station. -/
inductive StationName
  | lib
  | func
  | classs
  deriving DecidableEq, Repr

/-- The commands for station, attachment and system calls. -/
inductive CallCommand
  | statAtt
  | statDet
  | statCrat
  | statRm
  | statSpos
  | statGpos
  | statIsat
  | statEx
  | statSsw
  | statGsw
  | statName (n : StationName)
  | statGet (g : StationGet)
  | statSet (p : StationSet)
  | attGet (a : AttachGet)
  | sysGet (q : SystemGet)

/-- The commands a remote client sends. -/
inductive Command
  | evGet
  | evsGet
  | evPut
  | evsPut
  | evNew
  | evsNew
  | evDump
  | evsDump
  | evsNewGrp
  | alive
  | wait
  | close
  | fclose
  | wakeAtt
  | wakeAll
  | kill
  | call (c : CallCommand)
  | sysData
  | sysHist

/-- `ET_NET_STAT_GATTS` to `ET_NET_STAT_GSELECT`. -/
def StationGet.number : StationGet → ℕ
  | .gatts => 100
  | .status => 101
  | .incnt => 102
  | .outcnt => 103
  | .gblock => 104
  | .guser => 105
  | .grestore => 106
  | .gpre => 107
  | .gcue => 108
  | .gselect => 109

/-- `ET_NET_STAT_SBLOCK` to `ET_NET_STAT_SCUE`. -/
def StationSet.number : StationSet → ℕ
  | .sblock => 115
  | .suser => 116
  | .srestore => 117
  | .spre => 118
  | .scue => 119

/-- `ET_NET_ATT_PUT` to `ET_NET_ATT_MAKE`. -/
def AttachGet.number : AttachGet → ℕ
  | .put => 130
  | .get => 131
  | .dump => 132
  | .make => 133

/-- `ET_NET_SYS_TMP` to `ET_NET_SYS_GRP`. -/
def SystemGet.number : SystemGet → ℕ
  | .tmp => 150
  | .tmpmax => 151
  | .stat => 152
  | .statmax => 153
  | .proc => 154
  | .procmax => 155
  | .att => 156
  | .attmax => 157
  | .hbeat => 158
  | .pid => 159
  | .grp => 160

/-- `ET_NET_STAT_LIB`, `ET_NET_STAT_FUNC` and `ET_NET_STAT_CLASS`. -/
def StationName.number : StationName → ℕ
  | .lib => 84
  | .func => 85
  | .classs => 86

/-- `ET_NET_STAT_…`, `ET_NET_ATT_…` and `ET_NET_SYS_…`. -/
def CallCommand.number : CallCommand → ℕ
  | .statAtt => 60
  | .statDet => 61
  | .statCrat => 62
  | .statRm => 63
  | .statSpos => 64
  | .statGpos => 65
  | .statIsat => 80
  | .statEx => 81
  | .statSsw => 82
  | .statGsw => 83
  | .statName n => n.number
  | .statGet g => g.number
  | .statSet p => p.number
  | .attGet a => a.number
  | .sysGet q => q.number

/-- The numbers of the commands on the network. -/
def Command.number : Command → ℕ
  | .evGet => 20
  | .evsGet => 21
  | .evPut => 22
  | .evsPut => 23
  | .evNew => 24
  | .evsNew => 25
  | .evDump => 26
  | .evsDump => 27
  | .evsNewGrp => 28
  | .alive => 40
  | .wait => 41
  | .close => 42
  | .fclose => 43
  | .wakeAtt => 44
  | .wakeAll => 45
  | .kill => 46
  | .call c => c.number
  | .sysData => 170
  | .sysHist => 171

/-- The commands of local clients that cannot share mutexes (`ET_NET_EV_GET_L` to
`ET_NET_EVS_NEW_GRP_L`) and `ET_NET_SYS_GRPS` are left out. -/
def Command.leftOut : List ℕ := [0, 1, 2, 3, 4, 5, 6, 7, 8, 172]

/-- The other commands of the `switch` statements of the command loop. -/
def Command.all : List Command :=
  [.evGet, .evsGet, .evPut, .evsPut, .evNew, .evsNew, .evDump, .evsDump, .evsNewGrp, .alive,
    .wait, .close, .fclose, .wakeAtt, .wakeAll, .kill, .sysData, .sysHist,
    .call .statAtt, .call .statDet, .call .statCrat, .call .statRm, .call .statSpos,
    .call .statGpos, .call .statIsat, .call .statEx, .call .statSsw, .call .statGsw,
    .call (.statName .lib), .call (.statName .func), .call (.statName .classs),
    .call (.statGet .gatts), .call (.statGet .status), .call (.statGet .incnt),
    .call (.statGet .outcnt), .call (.statGet .gblock), .call (.statGet .guser),
    .call (.statGet .grestore), .call (.statGet .gpre), .call (.statGet .gcue),
    .call (.statGet .gselect), .call (.statSet .sblock), .call (.statSet .suser),
    .call (.statSet .srestore), .call (.statSet .spre), .call (.statSet .scue),
    .call (.attGet .put), .call (.attGet .get), .call (.attGet .dump), .call (.attGet .make),
    .call (.sysGet .tmp), .call (.sysGet .tmpmax), .call (.sysGet .stat),
    .call (.sysGet .statmax), .call (.sysGet .proc), .call (.sysGet .procmax),
    .call (.sysGet .att), .call (.sysGet .attmax), .call (.sysGet .hbeat),
    .call (.sysGet .pid), .call (.sysGet .grp)]

/-- A command on the network. -/
def Command.code (c : Command) : Word := BitVec.ofNat 32 c.number

/-- The command with the given number. -/
def Command.ofCode (w : Word) : Option Command := Command.all.find? (·.number == w.toNat)

/-- **Commands are told apart by their numbers.** -/
theorem Command.ofCode_code (c : Command) : Command.ofCode c.code = some c := by
  cases c with
  | call c =>
      cases c with
      | statName n => cases n <;> rfl
      | statGet g => cases g <;> rfl
      | statSet p => cases p <;> rfl
      | attGet a => cases a <;> rfl
      | sysGet q => cases q <;> rfl
      | _ => rfl
  | _ => rfl

/-! ## Calls -/

/-- `ET_FUNCNAME_LENGTH`. -/
def etFuncnameLength : ℕ := 48

/-- `ET_FILENAME_LENGTH`. -/
def etFilenameLength : ℕ := 100

/-- `ET_MAXHOSTNAMELEN`. -/
def etMaxhostnamelen : ℕ := 256

/-- `ET_IPADDRSTRLEN`. -/
def etIpaddrstrlen : ℕ := 16

/-- An array of `ET_STATION_SELECT_INTS` words. -/
structure SelectWords where
  s0 : Word
  s1 : Word
  s2 : Word
  s3 : Word
  s4 : Word
  s5 : Word
  deriving DecidableEq, Repr, Inhabited

namespace SelectWords

def toList (s : SelectWords) : List Word := [s.s0, s.s1, s.s2, s.s3, s.s4, s.s5]

/-- The words of an array from index `i` on. -/
def ofList (ws : List Word) (i : ℕ) : SelectWords where
  s0 := ws.getD i 0
  s1 := ws.getD (i + 1) 0
  s2 := ws.getD (i + 2) 0
  s3 := ws.getD (i + 3) 0
  s4 := ws.getD (i + 4) 0
  s5 := ws.getD (i + 5) 0

@[simp] theorem length_toList (s : SelectWords) : s.toList.length = 6 := rfl

end SelectWords

/-- `et_stat_config` as it is sent: the integers are not looked at on the way. -/
structure RemoteStatConfig where
  init : Word
  flowMode : Word
  userMode : Word
  restoreMode : Word
  blockMode : Word
  prescale : Word
  cue : Word
  selectMode : Word
  select : SelectWords
  fname : Str etFuncnameLength
  lib : Str etFilenameLength
  classs : Str etFilenameLength

/-- The size of the array a name of a configuration is in. -/
def StationName.size : StationName → ℕ
  | .lib => etFilenameLength
  | .func => etFuncnameLength
  | .classs => etFilenameLength

/-- **The calls**, with their arguments.  `attach` has the process of the client, and its
host and address as far as it could find them out. -/
inductive Call
  | stationGet (g : StationGet) (stat : Word)
  | stationSet (p : StationSet) (stat value : Word)
  | attachGet (a : AttachGet) (att : Word)
  | systemGet (q : SystemGet)
  | stationName (n : StationName) (stat : Word)
  | createAt (name : Str etStatnameLength) (sc : RemoteStatConfig) (position pposition : Word)
  | remove (stat : Word)
  | attach (stat pid : Word) (host : Option (Str etMaxhostnamelen))
      (interface : Option (Str etIpaddrstrlen))
  | detach (att : Word)
  | setposition (stat position pposition : Word)
  | getposition (stat : Word)
  | isattached (stat att : Word)
  | existing (name : CStr)
  | setselectwords (stat : Word) (select : SelectWords)
  | getselectwords (stat : Word)

/-- The command of a call. -/
def Call.command : Call → CallCommand
  | .stationGet g _ => .statGet g
  | .stationSet p _ _ => .statSet p
  | .attachGet a _ => .attGet a
  | .systemGet q => .sysGet q
  | .stationName n _ => .statName n
  | .createAt .. => .statCrat
  | .remove _ => .statRm
  | .attach .. => .statAtt
  | .detach _ => .statDet
  | .setposition .. => .statSpos
  | .getposition _ => .statGpos
  | .isattached .. => .statIsat
  | .existing _ => .statEx
  | .setselectwords .. => .statSsw
  | .getselectwords _ => .statGsw

/-- The output variables of a call. -/
@[reducible] def Call.Out : Call → Type
  | .stationGet .. => Word
  | .attachGet .. => BitVec 64
  | .systemGet _ => Word
  | .stationName n _ => Str n.size
  | .createAt .. => Word
  | .attach .. => Word
  | .getposition _ => Word × Word
  | .existing _ => Word
  | .getselectwords _ => SelectWords
  | _ => Unit

/-- Whether a call that returns `err` has set its output variables. -/
def Call.delivers : Call → Word → Bool
  | .createAt .., err => err = etOk || err = etErrorExists
  | .existing _, err => err = 1
  | _, err => err = etOk

/-- **What a local call leaves**: its status and its output variables. -/
structure Result (c : Call) where
  err : Word
  out : c.Out

/-- What the caller sees of it. -/
def Result.seen {c : Call} (r : Result c) : Word × Option c.Out :=
  (r.err, if c.delivers r.err then some r.out else none)

/-! ## The client's side -/

/-- The length of a string that may be missing, its zero byte included. -/
def optionSize {n : ℕ} : Option (Str n) → Word
  | some s => s.1.size
  | none => 0

/-- A string that may be missing. -/
def putOption {n : ℕ} : Option (Str n) → List Byte
  | some s => s.1.put
  | none => []

/-- What the client writes after the command.  `junk` is what happens to be in
`transfer[3]` of `etr_station_setposition`, which is sent but not set: its third integer is
written twice. -/
def Call.args (junk : Word) : Call → List Byte
  | .stationGet _ stat => putWords [stat]
  | .stationSet _ stat value => putWords [stat, value]
  | .attachGet _ att => putWords [att]
  | .systemGet _ => []
  | .stationName _ stat => putWords [stat]
  | .createAt name sc position pposition =>
      putWords ([sc.init, sc.flowMode, sc.userMode, sc.restoreMode, sc.blockMode, sc.prescale,
        sc.cue, sc.selectMode] ++ sc.select.toList ++
        [sc.fname.1.size, sc.lib.1.size, sc.classs.1.size, name.1.size, position, pposition]) ++
      (sc.fname.1.put ++ (sc.lib.1.put ++ (sc.classs.1.put ++ name.1.put)))
  | .remove stat => putWords [stat]
  | .attach stat pid host interface =>
      putWords [stat, pid, optionSize host, optionSize interface] ++
      (putOption host ++ putOption interface)
  | .detach att => putWords [att]
  | .setposition stat _ pposition => putWords [stat, pposition, junk]
  | .getposition stat => putWords [stat]
  | .isattached stat att => putWords [stat, att]
  | .existing name => putWords [name.size] ++ name.put.take name.size.toNat
  | .setselectwords stat select => putWords (stat :: select.toList)
  | .getselectwords stat => putWords [stat]

/-- What the client writes: the command and its arguments. -/
def Call.request (junk : Word) (c : Call) : List Byte := htonl (Command.call c.command).code ++ c.args junk

/-- A call whose reply is an array of `n` words, the first of them the status. -/
def etrWords {α : Type} (request : List Byte) (n : ℕ) (result : Word → List Word → Option α) :
    Routine (Word × Option α) :=
  .exchange request (4 * n) (etErrorWrite, none) (etErrorRead, none) fun piece => .unlock <|
    let transfer := getWords n piece
    let err := transfer.getD 0 0
    .ret (err, result err transfer)

/-- A call whose reply is its status. -/
def etrStatus (request : List Byte) : Routine (Word × Option Unit) :=
  etrWords request 1 fun err _ => if err = etOk then some () else none

/-- `etr_station_getstuff`. -/
def etrStationGetstuff (g : StationGet) (stat : Word) : Routine (Word × Option Word) :=
  etrWords ((Call.stationGet g stat).request 0) 2 fun err transfer =>
    if err = etOk then some (transfer.getD 1 0) else none

/-- `etr_station_setstuff`. -/
def etrStationSetstuff (p : StationSet) (stat value : Word) : Routine (Word × Option Unit) :=
  etrStatus ((Call.stationSet p stat value).request 0)

/-- `etr_attach_getstuff`. -/
def etrAttachGetstuff (a : AttachGet) (att : Word) : Routine (Word × Option (BitVec 64)) :=
  etrWords ((Call.attachGet a att).request 0) 3 fun err transfer =>
    if err = etOk then some (uint64 (transfer.getD 1 0) (transfer.getD 2 0)) else none

/-- `etr_system_getstuff`. -/
def etrSystemGetstuff (q : SystemGet) : Routine (Word × Option Word) :=
  etrWords ((Call.systemGet q).request 0) 2 fun err transfer =>
    if err = etOk then some (transfer.getD 1 0) else none

/-- `etr_station_getlib`, `etr_station_getfunction` and `etr_station_getclass`.  The name is
read into an array of its size; there is no telling what happens when it does not fit. -/
def etrStationName (n : StationName) (stat : Word) : Routine (Word × Option (Str n.size)) :=
  .exchange ((Call.stationName n stat).request 0) 8 (etErrorWrite, none) (etErrorRead, none)
    fun piece =>
      let transfer := getWords 2 piece
      let err := transfer.getD 0 0
      let len := (transfer.getD 1 0).toNat
      if err = etOk then
        .recv len fun
          | some name =>
              match (readStr n.size len).run name with
              | some (s, _) => .unlock (.ret (err, some s))
              | none => .hang
          | none => .unlock (.ret (etErrorRead, none))
      else .unlock (.ret (err, none))

/-- `etr_station_create_at`. -/
def etrStationCreateAt (name : Str etStatnameLength) (sc : RemoteStatConfig)
    (position pposition : Word) : Routine (Word × Option Word) :=
  etrWords ((Call.createAt name sc position pposition).request 0) 2 fun err transfer =>
    if err = etOk ∨ err = etErrorExists then some (transfer.getD 1 0) else none

/-- `etr_station_remove`. -/
def etrStationRemove (stat : Word) : Routine (Word × Option Unit) :=
  etrStatus ((Call.remove stat).request 0)

/-- `etr_station_attach`. -/
def etrStationAttach (stat pid : Word) (host : Option (Str etMaxhostnamelen))
    (interface : Option (Str etIpaddrstrlen)) : Routine (Word × Option Word) :=
  etrWords ((Call.attach stat pid host interface).request 0) 2 fun err incoming =>
    if err = etOk then some (incoming.getD 1 0) else none

/-- `etr_station_detach`. -/
def etrStationDetach (att : Word) : Routine (Word × Option Unit) :=
  etrStatus ((Call.detach att).request 0)

/-- `etr_station_setposition`. -/
def etrStationSetposition (junk stat position pposition : Word) : Routine (Word × Option Unit) :=
  etrStatus ((Call.setposition stat position pposition).request junk)

/-- `etr_station_getposition`. -/
def etrStationGetposition (stat : Word) : Routine (Word × Option (Word × Word)) :=
  etrWords ((Call.getposition stat).request 0) 3 fun err transfer =>
    if err = etOk then some (transfer.getD 1 0, transfer.getD 2 0) else none

/-- `etr_station_isattached`. -/
def etrStationIsattached (stat att : Word) : Routine (Word × Option Unit) :=
  etrStatus ((Call.isattached stat att).request 0)

/-- `etr_station_exists`. -/
def etrStationExists (name : CStr) : Routine (Word × Option Word) :=
  etrWords ((Call.existing name).request 0) 2 fun err transfer =>
    if err = 1 then some (transfer.getD 1 0) else none

/-- `etr_station_setselectwords`. -/
def etrStationSetselectwords (stat : Word) (select : SelectWords) : Routine (Word × Option Unit) :=
  etrStatus ((Call.setselectwords stat select).request 0)

/-- `etr_station_getselectwords`. -/
def etrStationGetselectwords (stat : Word) : Routine (Word × Option SelectWords) :=
  etrWords ((Call.getselectwords stat).request 0) 7 fun err transfer =>
    if err = etOk then some (.ofList transfer 1) else none

/-- **The client's routine for a call.** -/
def etr (junk : Word) : (c : Call) → Routine (Word × Option c.Out)
  | .stationGet g stat => etrStationGetstuff g stat
  | .stationSet p stat value => etrStationSetstuff p stat value
  | .attachGet a att => etrAttachGetstuff a att
  | .systemGet q => etrSystemGetstuff q
  | .stationName n stat => etrStationName n stat
  | .createAt name sc position pposition => etrStationCreateAt name sc position pposition
  | .remove stat => etrStationRemove stat
  | .attach stat pid host interface => etrStationAttach stat pid host interface
  | .detach att => etrStationDetach att
  | .setposition stat position pposition => etrStationSetposition junk stat position pposition
  | .getposition stat => etrStationGetposition stat
  | .isattached stat att => etrStationIsattached stat att
  | .existing name => etrStationExists name
  | .setselectwords stat select => etrStationSetselectwords stat select
  | .getselectwords stat => etrStationGetselectwords stat

/-! ## The server's side -/

/-- A string that is not sent when its length is zero. -/
def readOption (n : ℕ) (len : Word) : Reader (Option (Str n)) :=
  if 0 < len.toNat then some <$> readStr n len.toNat else pure none

/-- **What the command loop reads after a command.** -/
def CallCommand.read : CallCommand → Reader Call
  | .statAtt => do
      let transfer ← readWords 4
      let host ← readOption etMaxhostnamelen (transfer.getD 2 0)
      let interface ← readOption etIpaddrstrlen (transfer.getD 3 0)
      return .attach (transfer.getD 0 0) (transfer.getD 1 0) host interface
  | .statDet => return .detach (← readWord)
  | .statCrat => do
      let incoming ← readWords 20
      let fname ← readStr etFuncnameLength (incoming.getD 14 0).toNat
      let lib ← readStr etFilenameLength (incoming.getD 15 0).toNat
      let classs ← readStr etFilenameLength (incoming.getD 16 0).toNat
      let name ← readStr etStatnameLength (incoming.getD 17 0).toNat
      let sc : RemoteStatConfig :=
        { init := incoming.getD 0 0
          flowMode := incoming.getD 1 0
          userMode := incoming.getD 2 0
          restoreMode := incoming.getD 3 0
          blockMode := incoming.getD 4 0
          prescale := incoming.getD 5 0
          cue := incoming.getD 6 0
          selectMode := incoming.getD 7 0
          select := .ofList incoming 8
          fname, lib, classs }
      return .createAt name sc (incoming.getD 18 0) (incoming.getD 19 0)
  | .statRm => return .remove (← readWord)
  | .statSpos => do
      let transfer ← readWords 3
      return .setposition (transfer.getD 0 0) (transfer.getD 1 0) (transfer.getD 2 0)
  | .statGpos => return .getposition (← readWord)
  | .statIsat => do
      let transfer ← readWords 2
      return .isattached (transfer.getD 0 0) (transfer.getD 1 0)
  | .statEx => do
      let length ← readWord
      let name ← readStr etStatnameLength length.toNat
      return .existing name.1
  | .statSsw => do
      let incoming ← readWords 7
      return .setselectwords (incoming.getD 0 0) (.ofList incoming 1)
  | .statGsw => return .getselectwords (← readWord)
  | .statName n => return .stationName n (← readWord)
  | .statGet g => return .stationGet g (← readWord)
  | .statSet p => do
      let incoming ← readWords 2
      return .stationSet p (incoming.getD 0 0) (incoming.getD 1 0)
  | .attGet a => return .attachGet a (← readWord)
  | .sysGet q => return .systemGet q

/-- **What the command loop writes.**  Output variables are sent whether they were set or
not, except for a name. -/
def Call.reply : (c : Call) → Result c → List Byte
  | .stationGet .., r => putWords [r.err, r.out]
  | .stationSet .., r => putWords [r.err]
  | .attachGet .., r => putWords [r.err, highInt r.out, lowInt r.out]
  | .systemGet _, r => putWords [r.err, r.out]
  | .stationName .., r =>
      if r.err = etOk then putWords [r.err, r.out.1.size] ++ r.out.1.put else putWords [r.err, 0]
  | .createAt .., r => putWords [r.err, r.out]
  | .remove _, r => putWords [r.err]
  | .attach .., r => putWords [r.err, r.out]
  | .detach _, r => putWords [r.err]
  | .setposition .., r => putWords [r.err]
  | .getposition _, r => putWords [r.err, r.out.1, r.out.2]
  | .isattached .., r => putWords [r.err]
  | .existing _, r => putWords [r.err, r.out]
  | .setselectwords .., r => putWords [r.err]
  | .getselectwords _, r => putWords (r.err :: r.out.toList)

/-! ## Both sides agree -/

/-- **What is sent right**: the position a station is given is sent as its position, and a
name to look for fits in the array it is read into. -/
def Call.wellSent (junk : Word) : Call → Prop
  | .setposition _ position pposition => position = pposition ∧ pposition = junk
  | .existing name => name.bytes.length < etStatnameLength
  | _ => True

instance (junk : Word) (c : Call) : Decidable (c.wellSent junk) := by
  unfold Call.wellSent
  split <;> infer_instance

/-- A string whose length was sent before. -/
theorem run_readStr_size {n : ℕ} (hn : n < 2 ^ 32) (s : Str n) (rest : List Byte) :
    (readStr n s.1.size.toNat).run (s.1.put ++ rest) = some (s, rest) := by
  rw [Str.toNat_size hn, run_readStr]

theorem run_readOption {n : ℕ} (hn : n < 2 ^ 32) (s : Option (Str n)) (rest : List Byte) :
    (readOption n (optionSize s)).run (putOption s ++ rest) = some (s, rest) := by
  cases s with
  | none => rfl
  | some s =>
      have hsize : 0 < s.1.size.toNat := by
        rw [Str.toNat_size hn]
        exact Nat.succ_pos _
      rw [readOption, optionSize, putOption, if_pos hsize, StateT.run_map, run_readStr_size hn]
      rfl

/-- **The command loop reads the call that was written**, and nothing of what follows. -/
theorem Call.run_read {junk : Word} {c : Call} (h : c.wellSent junk) (rest : List Byte) :
    c.command.read.run (c.args junk ++ rest) = some (c, rest) := by
  cases c with
  | stationGet g stat => simp [Call.command, Call.args, CallCommand.read]
  | stationSet p stat value => exact run_bind_of (run_readWords (by rfl) _) rfl
  | attachGet a att => simp [Call.command, Call.args, CallCommand.read]
  | systemGet q => rfl
  | stationName n stat => simp [Call.command, Call.args, CallCommand.read]
  | createAt name sc position pposition =>
      simp only [Call.args, List.append_assoc]
      refine run_bind_of (run_readWords (by rfl) _) ?_
      refine run_bind_of (run_readStr_size (by decide) sc.fname _) ?_
      refine run_bind_of (run_readStr_size (by decide) sc.lib _) ?_
      refine run_bind_of (run_readStr_size (by decide) sc.classs _) ?_
      exact run_bind_of (run_readStr_size (by decide) name _) rfl
  | remove stat => simp [Call.command, Call.args, CallCommand.read]
  | attach stat pid host interface =>
      rw [Call.args, List.append_assoc, List.append_assoc]
      refine run_bind_of (run_readWords (by rfl) _) ?_
      refine run_bind_of (run_readOption (by decide) host _) ?_
      exact run_bind_of (run_readOption (by decide) interface _) rfl
  | detach att => simp [Call.command, Call.args, CallCommand.read]
  | setposition stat position pposition =>
      obtain ⟨rfl, rfl⟩ := h
      exact run_bind_of (run_readWords (by rfl) _) rfl
  | getposition stat => simp [Call.command, Call.args, CallCommand.read]
  | isattached stat att => exact run_bind_of (run_readWords (by rfl) _) rfl
  | existing name =>
      have hlt : name.bytes.length < 48 := h
      have hsize : name.size.toNat = name.bytes.length + 1 := CStr.toNat_size (by omega)
      have htake : name.put.take name.size.toNat = name.put := by
        rw [hsize, ← CStr.length_put, List.take_length]
      rw [Call.args, htake, List.append_assoc]
      refine run_bind_of (run_readWord _ _) ?_
      rw [hsize]
      exact run_bind_of (run_readStr ⟨name, h⟩ rest) rfl
  | setselectwords stat select => exact run_bind_of (run_readWords (by rfl) _) rfl
  | getselectwords stat => simp [Call.command, Call.args, CallCommand.read]

variable {σ : Type} {serve : Server σ} {t t' : σ}

/-- The client reads an array of words. -/
theorem converse_etrWords {α : Type} {request : List Byte} {n : ℕ} {err : Word} {ws : List Word}
    {result : Word → List Word → Option α}
    (h : serve t request = some ((t', putWords (err :: ws)), [])) (hn : ws.length + 1 = n) :
    converse serve (etrWords request n result) (.quiet t) =
      some ((err, result err (err :: ws)), .quiet t') := by
  subst hn
  have hlen : (putWords (err :: ws)).length = 4 * (ws.length + 1) := length_putWords _
  have hwords : getWords (ws.length + 1) (putWords (err :: ws)) = err :: ws :=
    getWords_putWords rfl
  rw [etrWords, converse_exchange_of_length h hlen, hwords]
  rfl

/-- The client reads the name of a library, a function or a class. -/
theorem converse_etrStationName {n : StationName} {stat : Word}
    {r : Result (.stationName n stat)}
    (h : serve t ((Call.stationName n stat).request 0) =
      some ((t', (Call.stationName n stat).reply r), [])) :
    converse serve (etrStationName n stat) (.quiet t) = some (r.seen, .quiet t') := by
  have hsize : n.size < 2 ^ 32 := by cases n <;> decide
  by_cases herr : r.err = etOk
  · have hreply : (Call.stationName n stat).reply r =
        putWords [r.err, r.out.1.size] ++ r.out.1.put := if_pos herr
    have hlen : r.out.1.put.length = r.out.1.size.toNat := by
      rw [CStr.length_put, Str.toNat_size hsize]
    have hread := run_readStr_size hsize r.out []
    rw [List.append_nil] at hread
    rw [hreply] at h
    have hwords : getWords 2 (putWords [r.err, r.out.1.size]) = [r.err, r.out.1.size] :=
      getWords_putWords rfl
    rw [etrStationName, converse_exchange h (by simp), hwords]
    simp only [List.getD_cons_zero, List.getD_cons_succ]
    rw [if_pos herr, ← List.append_nil r.out.1.put, converse_recv hlen]
    simp [converse, Conn.quiet, Result.seen, Call.delivers, herr, hread]
  · have hreply : (Call.stationName n stat).reply r = putWords [r.err, 0] := if_neg herr
    rw [hreply] at h
    have hwords : getWords 2 (putWords [r.err, 0]) = [r.err, 0] := getWords_putWords rfl
    rw [etrStationName, converse_exchange_of_length h (by simp), hwords]
    simp only [List.getD_cons_zero]
    rw [if_neg herr]
    simp [converse, Result.seen, Call.delivers, herr]

/-- **The client reads the reply that was written**, all of it, and returns what the caller
of the local call sees. -/
theorem converse_etr {junk : Word} {c : Call} {r : Result c}
    (h : serve t (c.request junk) = some ((t', c.reply r), [])) :
    converse serve (etr junk c) (.quiet t) = some (r.seen, .quiet t') := by
  cases c with
  | stationName n stat => exact converse_etrStationName h
  | createAt name sc position pposition =>
      unfold etr etrStationCreateAt
      refine (converse_etrWords h rfl).trans ?_
      simp [Result.seen, Call.delivers]
  | _ =>
      simp only [etr, etrStationGetstuff, etrStationSetstuff, etrAttachGetstuff,
        etrSystemGetstuff, etrStationRemove, etrStationAttach, etrStationDetach,
        etrStationSetposition, etrStationGetposition, etrStationIsattached, etrStationExists,
        etrStationSetselectwords, etrStationGetselectwords, etrStatus]
      refine (converse_etrWords h rfl).trans ?_
      simp [Result.seen, Call.delivers, SelectWords.ofList, SelectWords.toList]

end EventTransfer
