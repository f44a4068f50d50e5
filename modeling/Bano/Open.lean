import Bano.Conf

/-! bano_open and bano_close: the sections of a configuration are applied one after the other, and what
they have opened is closed by the same lines of either function. Allocations succeed. -/
namespace Bano

open Lib

/-- What the base has opened, beside its sockets and nodes: bmp buffers, camera descriptors with
their frame buffers, SMS sessions, and HTTP servers with their pipes. -/
structure Devices where
  bmps : Heap Unit
  fds : Heap Unit
  fbs : Heap Unit
  sessions : Heap Unit
  servers : Heap Unit
  pipes : Heap Unit

def Devices.empty : Devices := ⟨.empty,.empty,.empty,.empty,.empty,.empty⟩

/-- `fd` is none for -1, and `fb` while `fb_count` is 0. -/
structure BanoCamHandle where
  fd : Option Nat
  isDummy : Bool
  fb : Option Nat
  bmp : Nat

structure BanoHttpd where
  server : Option Nat
  flags : U32
  pipe : Nat

/-- The whole bano_base_t; `base` is what its loop works on, and `sms` the session that was opened last. -/
structure BanoBase where
  base : Base
  addr : U32
  isHttpd : Bool
  httpd : BanoHttpd
  isCam : Bool
  cam : BanoCamHandle
  isSms : Bool
  sms : Nat
  devices : Devices

/-- How far bano_cam_open gets with the device: it is not opened, it cannot capture,
its format is not set, its stream does not start, or it streams. -/
inductive CamAnswer where
  | noDevice
  | noCapture
  | noFormat
  | noStream
  | streams

/-- What fails in bano_httpd_init once its socket is there, if anything does. -/
inductive HttpdAnswer where
  | noPipe
  | noMutex
  | noCond
  | noServer
  | starts

/-- What the devices of a section answer, and what memory held before in the infos. -/
structure Answers where
  socketInfo : BanoSocketInfo
  nodeInfo : NodeInfo
  httpdInfo : BanoHttpdInfo
  camInfo : BanoCamInfo
  smsInfo : BanoSmsInfo
  snrfOpens : Bool
  httpd : HttpdAnswer
  cam : CamAnswer
  sslOpens : Bool

/-- The environment: BANO_SMS_KEY, whether psAesInitKey takes it, and what load_nodl_dir
makes of a directory from which it returns (see `loadNodlDir`). -/
structure OpenEnv where
  smsKey : Option (List UInt8)
  aesInits : Bool
  loadNodlDir : Token → Store Nodl → Int × Store Nodl

def banoDefaultBaseAddr : U32 := 0x5a5a5a5a

/-- What was mapped for a stream that does not start is left out. -/
def banoCamOpen (answer : CamAnswer) (info : BanoCamInfo) (cam : BanoCamHandle) (d : Devices) :
    Int × BanoCamHandle × Devices :=
  -- extract format info
  if info.fmt = .invalid then (-1,cam,d)
  else
    let cam := { cam with bmp := d.bmps.next }
    let opened := { d with bmps := d.bmps.alloc () }
    -- on_error_1
    let closed := { d with bmps := opened.bmps.erase cam.bmp }
    if info.flags &&& camFlagDummy ≠ 0 then (0,{ cam with isDummy := true },opened)
    else
      let fd := d.fds.next
      -- on_error_2
      let closedFd := { closed with fds := (d.fds.alloc ()).erase fd }
      match answer with
      | .noDevice => (-1,{ cam with isDummy := false, fd := none },closed)
      | .noCapture => (-1,{ cam with isDummy := false, fd := some fd },closedFd)
      | .noFormat | .noStream => (-1,{ cam with isDummy := false, fd := some fd, fb := none },closedFd)
      | .streams => (0,{ cam with isDummy := false, fd := some fd, fb := some d.fbs.next },
          { opened with fds := d.fds.alloc (), fbs := d.fbs.alloc () })

/-- Either way to stop a stream. -/
def stopMmap (cam : BanoCamHandle) (d : Devices) : Option Devices :=
  match cam.fb with
  | none => some d
  | some fb => do
    let fbs ← d.fbs.free fb
    some { d with fbs := fbs }

def banoCamClose (cam : BanoCamHandle) (d : Devices) : Option Devices := do
  let bmps ← d.bmps.free cam.bmp
  let d := { d with bmps := bmps }
  if cam.isDummy then some d
  else
    let d ← stopMmap cam d
    let fds ← d.fds.free (← cam.fd)
    some { d with fds := fds }

/-- The array for the address string holds 16 bytes. -/
def smsAddrSize : Nat := 16

/-- An empty key has no remainder, a missing port is a NULL string, and a long address runs over its array.
matrixSslOpen opens the library at its first call and only says so at the later ones, hence a session stands for a
bano_sms_open that returns 0 and not for what the library holds. -/
def banoSmsOpen (env : OpenEnv) (sslOpens : Bool) (info : BanoSmsInfo) (sms : Nat) (d : Devices) :
    Option (Int × Nat × Devices) :=
  let opened := some (0,d.sessions.next,{ d with sessions := d.sessions.alloc () })
  if sslOpens = false then some (-1,sms,d)
  else
    match env.smsKey with
    | none => some (-1,sms,d)
    | some [] => none
    | some (_ :: _) =>
      if env.aesInits = false then some (-1,sms,d)
      else
        -- get server socket address
        match info.addr with
        | none => opened
        | some addr => if info.port.isNone || smsAddrSize ≤ addr.length then none else opened

def banoSmsClose (sms : Nat) (d : Devices) : Option Devices := do
  let sessions ← d.sessions.free sms
  some { d with sessions := sessions }

/-- A failing bano_httpd_init leaves its socket to the base. -/
def banoHttpdInit (answer : HttpdAnswer) (info : BanoHttpdInfo) (s : BanoBase) : Option (Int × BanoBase) := do
  let (err,base) ← banoAddSocket true true s.base .httpd
  let s := { s with base := base }
  if err ≠ 0 then some (-1,s)
  else
    let httpd := { s.httpd with flags := info.flags }
    let pipe := s.devices.pipes.next
    let opened := s.devices.pipes.alloc ()
    -- on_error_2
    let closed := { s.devices with pipes := opened.erase pipe }
    match answer with
    | .noPipe => some (-1,{ s with httpd := httpd })
    | .noMutex | .noCond => some (-1,{ s with httpd := { httpd with pipe := pipe }, devices := closed })
    | .noServer => some (-1,{ s with httpd := { httpd with pipe := pipe, server := none }, devices := closed })
    | .starts => some (0,{ s with
        httpd := { httpd with pipe := pipe, server := some s.devices.servers.next }
        devices := { s.devices with pipes := opened, servers := s.devices.servers.alloc () } })

/-- mg_wakeup_server reads from the server. -/
def banoHttpdFini (httpd : BanoHttpd) (d : Devices) : Option Devices := do
  let servers ← d.servers.free (← httpd.server)
  let pipes ← d.pipes.free httpd.pipe
  some { d with servers := servers, pipes := pipes }

def applyBasePair (env : OpenEnv) (pair : Token × Text) (s : BanoBase) : Int × BanoBase :=
  if isWord pair.1 "addr" then
    if isWord pair.2.token "default" then (0,{ s with addr := banoDefaultBaseAddr })
    else putUint32 pair.2.token s fun x => { s with addr := x }
  else if isWord pair.1 "nodl_dir" then
    let (err,nodls) := env.loadNodlDir pair.2.token s.base.nodls
    let s := { s with base := { s.base with nodls := nodls } }
    if err ≠ 0 then (-1,s) else (0,s)
  else if isWord pair.1 "cipher_alg" then
    if isWord pair.2.token "none"
      then (0,{ s with base := { s.base with cipher := { s.base.cipher with alg := .none } } })
    else if isWord pair.2.token "xtea" then
      (0,{ s with base := { s.base with cipher := { s.base.cipher with alg := .xtea } } })
    else (-1,s)
  else if isWord pair.1 "cipher_key" then
    match banoStringToCipherKey pair.2 with
    | none => (-1,s)
    | some key => (0,{ s with base := { s.base with cipher := { s.base.cipher with key := key } } })
  else if isWord pair.1 "new_nodes" then
    putFlag pair.2.token s.base.flags baseFlagNewNodes s fun flags =>
      { s with base := { s.base with flags := flags } }
  else (-1,s)

namespace BanoBase

/-- bano_add_socket, whose device may fail to open. -/
def addSocket (s : BanoBase) (opens : Bool) (sinfo : BanoSocketInfo) : Option (Int × BanoBase) :=
  match sinfo.type with
  | none => some (-1,s)
  | some type =>
    if opens then do
      let (err,base) ← banoAddSocket true true s.base type
      some (err,{ s with base := base })
    else some (-1,s)

def addNode (s : BanoBase) (ninfo : NodeInfo) : Option (Int × BanoBase) := do
  let (err,base) ← banoAddNode true true s.base ninfo.toBanoNodeInfo
  some (err,{ s with base := base })

def openCam (s : BanoBase) (answer : CamAnswer) (info : BanoCamInfo) : Int × BanoBase :=
  let (err,cam,d) := banoCamOpen answer info s.cam s.devices
  let s := { s with cam := cam, devices := d }
  if err ≠ 0 then (-1,s) else (0,{ s with isCam := true })

def openSms (s : BanoBase) (env : OpenEnv) (sslOpens : Bool) (info : BanoSmsInfo) : Option (Int × BanoBase) := do
  let (err,sms,d) ← banoSmsOpen env sslOpens info s.sms s.devices
  let s := { s with sms := sms, devices := d }
  if err ≠ 0 then some (-1,s) else some (0,{ s with isSms := true })

def startHttpd (s : BanoBase) (answer : HttpdAnswer) (info : BanoHttpdInfo) : Option (Int × BanoBase) := do
  let (err,s) ← banoHttpdInit answer info s
  if err ≠ 0 then some (-1,s) else some (0,{ s with isHttpd := true })

end BanoBase

/-- What follows once the pairs of a section are taken. -/
def onPairs (pairs : Int × σ) (s : BanoBase) (go : σ → Option (Int × BanoBase)) : Option (Int × BanoBase) :=
  if pairs.1 ≠ 0 then some (pairs.1,s) else go pairs.2

/-- A section of no known name is passed over. -/
def applyStruct (env : OpenEnv) (strukt : ConfSection) (a : Answers) (s : BanoBase) : Option (Int × BanoBase) :=
  if isWord strukt.name "base" then some (banoParserForeachPair (applyBasePair env) strukt.pairs s)
  else if isWord strukt.name "socket" then
    let sinfo := { a.socketInfo with type := none }
    onPairs (banoParserForeachPair (applySocketPair s.addr) strukt.pairs sinfo) s (s.addSocket a.snrfOpens)
  else if isWord strukt.name "node" then
    match s.base.sockets.list.head with
    | none => some (-1,s)
    | some li => do
      let socket ← s.base.sockets.data li
      let ninfo := { a.nodeInfo with flags := nodeFlagSocket, socket := socket }
      onPairs (banoParserForeachPair applyNodePair strukt.pairs ninfo) s s.addNode
  else if isWord strukt.name "http_server" then
    let info := { a.httpdInfo with flags := 0 }
    onPairs (banoParserForeachPair applyHttpdPair strukt.pairs info) s (s.startHttpd a.httpd)
  else if isWord strukt.name "cam" then
    let info := { a.camInfo with flags := 0 }
    onPairs (banoParserForeachPair applyCamPair strukt.pairs info) s fun info => some (s.openCam a.cam info)
  else if isWord strukt.name "sms" then
    let info := { a.smsInfo with addr := none, port := none }
    onPairs (banoParserForeachPair applySmsPair strukt.pairs info) s (s.openSms env a.sslOpens)
  else some (0,s)

/-- The sections up to one that fails. -/
def applyStructs (env : OpenEnv) : List (ConfSection × Answers) → BanoBase → Option (Int × BanoBase)
  | [], s => some (0,s)
  | (strukt,a) :: conf, s => do
    let (err,s) ← applyStruct env strukt a s
    if err ≠ 0 then some (err,s) else applyStructs env conf s

structure BanoBaseInfo where
  flags : U32
  addr : U32

def baseFlagConf : U32 := 1

def baseFlagAddr : U32 := 2

namespace BanoBase

/-- The lines that bano_close and the failing bano_open have in common. -/
def finish (s : BanoBase) : Option BanoBase := do
  let d ← if s.isHttpd then banoHttpdFini s.httpd s.devices else some s.devices
  let d ← if s.isCam then banoCamClose s.cam d else some d
  let d ← if s.isSms then banoSmsClose s.sms d else some d
  let base ← Bano.banoClose s.base
  some { s with base := base, devices := d }

/-- The base before its configuration, in memory that held `junk`. -/
def initial (junk : BanoBase) (info : BanoBaseInfo) : BanoBase :=
  { junk with
    base := Bano.banoOpen info.flags
    isHttpd := false
    isCam := false
    isSms := false
    addr := if info.flags &&& baseFlagAddr ≠ 0 then info.addr else banoDefaultBaseAddr
    devices := .empty }

/-- `conf` is what bano_parser_load_file reads, if it does. The load itself is left out:
none is -1 also for a file that is mapped and does not parse, where `banoParserLoadFile`
releases a buffer twice before bano_open closes anything. -/
def banoOpen (env : OpenEnv) (junk : BanoBase) (info : BanoBaseInfo) (conf : Option (List (ConfSection × Answers))) :
    Option (Int × BanoBase) :=
  let s := initial junk info
  if info.flags &&& baseFlagConf ≠ 0 then
    match conf with
    | none => do
      let s ← s.finish
      some (-1,s)
    | some conf => do
      let (err,s) ← applyStructs env conf s
      if err ≠ 0 then
        let s ← s.finish
        some (-1,s)
      else some (0,s)
  else some (0,s)

def banoClose (s : BanoBase) : Option (Int × BanoBase) := do
  let s ← s.finish
  some (0,s)

/-- A base is opened by all sections of its configuration, or by none if it has none. -/
theorem banoOpen_applied (opened : banoOpen env junk info (some conf) = some (0,s)) :
    info.flags &&& baseFlagConf ≠ 0 ∧ applyStructs env conf (initial junk info) = some (0,s) ∨
      info.flags &&& baseFlagConf = 0 ∧ s = initial junk info := by
  unfold banoOpen at opened
  split at opened
  · next reads =>
    obtain ⟨⟨err,mid⟩,applied,opened⟩ := Option.bind_eq_some_iff.mp opened
    dsimp only at opened
    split at opened
    · obtain ⟨_,_,opened⟩ := Option.bind_eq_some_iff.mp opened
      exact absurd (Prod.mk.inj (Option.some.inj opened)).1 (by decide)
    · next fine =>
      obtain ⟨_,rfl⟩ := Prod.mk.inj (Option.some.inj opened)
      obtain rfl := not_not.mp fine
      exact .inl ⟨reads,applied⟩
  · next unread =>
    obtain ⟨_,rfl⟩ := Prod.mk.inj (Option.some.inj opened)
    exact .inr ⟨not_not.mp unread,rfl⟩

end BanoBase
end Bano
