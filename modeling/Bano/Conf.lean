import Bano.Setup
import Bano.Strings

/-! The sections of a configuration: what each pair of a section sets,
from an info that holds what memory held before. -/
namespace Bano

/-- The pairs up to one that fails. -/
def banoParserForeachPair (fn : π → σ → Int × σ) : List π → σ → Int × σ
  | [], info => (0,info)
  | pair :: pairs, info =>
    let (err,info) := fn pair info
    if err ≠ 0 then (err,info) else banoParserForeachPair fn pairs info

/-- A struct of a configuration, whose values lie in the buffer of the file. -/
structure ConfSection where
  name : Token
  pairs : List (Token × Text)

/-- The struct that the parser read, as it lies in `data`. -/
def ParserStruct.section (data : List UInt8) (strukt : ParserStruct) : ConfSection :=
  ⟨strukt.name.bytes data,strukt.pairs.map fun pair =>
    (pair.key.bytes data,⟨pair.val.bytes data,data.drop (pair.val.data + pair.val.size)⟩)⟩

/-- A number is put where it belongs, or the pair fails. -/
def putUint32 (val : Token) (info : σ) (put : U32 → σ) : Int × σ :=
  match banoStringToUint32 val with
  | none => (-1,info)
  | some x => (0,put x)

/-- The flag as the truth value says, or the pair fails. -/
def putFlag (val : Token) (flags flag : U32) (info : σ) (put : U32 → σ) : Int × σ :=
  match banoStringToBool val with
  | none => (-1,info)
  | some true => (0,put (flags ||| flag))
  | some false => (0,put (flags &&& ~~~flag))

/-- A type of none is BANO_SOCKET_TYPE_INVALID. -/
structure BanoSocketInfo where
  type : Option SocketType
  devPath : Token
  addrWidth : Nat
  addrVal : U32

/-- `addr` is the address of the base. -/
def applySocketPair (addr : U32) (pair : Token × Text) (sinfo : BanoSocketInfo) : Int × BanoSocketInfo :=
  if isWord pair.1 "type" then
    if isWord pair.2.token "snrf" then (0,⟨some .snrf,literal "/dev/ttyUSB0",4,addr⟩) else (0,sinfo)
  else if isWord pair.1 "dev_path" then
    if sinfo.type = some .snrf then (0,{ sinfo with devPath := cstr pair.2.token }) else (0,sinfo)
  else (-1,sinfo)

def nodeFlagSeed : U32 := 2

/-- All of bano_node_info_t. -/
structure NodeInfo extends BanoNodeInfo where
  name : Token
  seed : U32

/-- The name array holds 32 bytes. -/
def nodeNameSize : Nat := 32

def applyNodePair (pair : Token × Text) (ninfo : NodeInfo) : Int × NodeInfo :=
  if isWord pair.1 "addr" then
    let ninfo := { ninfo with flags := ninfo.flags ||| nodeFlagAddr }
    putUint32 pair.2.token ninfo fun x => { ninfo with addr := x }
  else if isWord pair.1 "name" then
    if nodeNameSize ≤ pair.2.token.length then (-1,ninfo)
    else (0,{ ninfo with name := pair.2.token, flags := ninfo.flags ||| nodeFlagName })
  else if isWord pair.1 "seed" then
    let ninfo := { ninfo with flags := ninfo.flags ||| nodeFlagSeed }
    putUint32 pair.2.token ninfo fun x => { ninfo with seed := x }
  else if isWord pair.1 "nodl_id" then
    let ninfo := { ninfo with flags := ninfo.flags ||| nodeFlagNodlId }
    putUint32 pair.2.token ninfo fun x => { ninfo with nodlId := x }
  else if isWord pair.1 "cipher" then
    putFlag pair.2.token ninfo.flags nodeFlagCipher ninfo fun flags => { ninfo with flags := flags }
  else (-1,ninfo)

structure BanoHttpdInfo where
  flags : U32
  port : U16

def httpdFlagPort : U32 := 1

def httpdFlagAuth : U32 := 2

def applyHttpdPair (pair : Token × Text) (info : BanoHttpdInfo) : Int × BanoHttpdInfo :=
  if isWord pair.1 "port" then
    let info := { info with flags := info.flags ||| httpdFlagPort }
    match banoStringToUint16 pair.2.token with
    | none => (-1,info)
    | some x => (0,{ info with port := x })
  else if isWord pair.1 "auth" then
    putFlag pair.2.token info.flags httpdFlagAuth info fun flags => { info with flags := flags }
  else (-1,info)

inductive CamFmt where
  | yuv420_160_120
  | yuv420_320_240
  | yuv420_640_480
  | yuyv_160_120
  | yuyv_320_240
  | yuyv_640_480
  | invalid
  deriving DecidableEq

/-- Nothing but the flag tells whether `id` was set. -/
structure BanoCamInfo where
  flags : U32
  id : U32
  fmt : CamFmt

def camFlagId : U32 := 1

def camFlagFmt : U32 := 2

def camFlagDummy : U32 := 4

def applyCamPair (pair : Token × Text) (info : BanoCamInfo) : Int × BanoCamInfo :=
  if isWord pair.1 "id" then
    let info := { info with flags := info.flags ||| camFlagId }
    putUint32 pair.2.token info fun x => { info with id := x }
  else if isWord pair.1 "fmt" then
    let info := { info with flags := info.flags ||| camFlagFmt }
    if isWord pair.2.token "yuyv_320_240" then (0,{ info with fmt := .yuyv_320_240 })
    else if isWord pair.2.token "yuyv_640_480" then (0,{ info with fmt := .yuyv_640_480 })
    else (-1,info)
  else if isWord pair.1 "dummy" then
    putFlag pair.2.token info.flags camFlagDummy info fun flags => { info with flags := flags }
  else (-1,info)

/-- An address or a port of none is NULL. -/
structure BanoSmsInfo where
  addr : Option Token
  port : Option Token
  creds : List UInt8

def smsCredsSize : Nat := 32

/-- The C strings are copies, up to the NUL that ends them. -/
def applySmsPair (pair : Token × Text) (info : BanoSmsInfo) : Int × BanoSmsInfo :=
  if isWord pair.1 "https_addr" then (0,{ info with addr := some (cstr pair.2.token) })
  else if isWord pair.1 "https_port" then (0,{ info with port := some (cstr pair.2.token) })
  else if isWord pair.1 "https_creds" then
    match banoStringToArray pair.2 smsCredsSize with
    | none => (-1,info)
    | some creds => (0,{ info with creds := creds })
  else (-1,info)

end Bano
