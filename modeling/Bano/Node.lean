import Bano.LinkedList
import Bano.Store
import Bano.Message

/-! The records of the base: ios, nodes, the descriptions of their keys, and sockets. -/
namespace Bano

open Lib

/-- A completion function together with its data. -/
abbrev Callback := Nat

/-- `node` is set by bano_post_io and `timer` by post_io; a pointer that was never set is none. -/
structure BanoIo where
  node : Option Ptr
  flags : U32
  timer : Option Ptr
  retryMs : U32
  retryCount : U32
  complErr : U32
  complVal : U32
  complFn : Option Callback
  msg : BanoMsg
  deriving DecidableEq

def ioFlagReply : U32 := 1

def ioErrSuccess : U32 := 0

def ioErrFailure : U32 := 1

def ioErrTimeout : U32 := 2

def retryMs : U32 := 1700

def retryCount : U32 := 3

/-- BANO_IO_FLAG_REPLY: the io waits for a reply. -/
def BanoIo.waits (io : BanoIo) : Bool := io.flags &&& ioFlagReply ≠ 0

def banoInitCommonIo (io : BanoIo) (fn : Option Callback) : BanoIo :=
  { io with flags := 0, complVal := 0, complFn := fn }

/-- `junk` is what malloc left in the io. -/
def banoAllocGetIo (junk : BanoIo) (key : U16) (fn : Option Callback) : BanoIo :=
  let io := banoInitCommonIo junk fn
  -- default values: wait for 2s, retry 3 times
  { io with
    flags := io.flags ||| ioFlagReply
    retryMs := retryMs
    retryCount := retryCount
    msg := { io.msg with op := msgOpGet, flags := 0, saddr := 0, key := key } }

def banoAllocSetIo (junk : BanoIo) (key : U16) (val : U32) (isAck : Bool) (fn : Option Callback) : BanoIo :=
  let io := banoInitCommonIo junk fn
  let io :=
    if isAck then
      { io with flags := io.flags ||| ioFlagReply, retryMs := retryMs, retryCount := retryCount }
    else io
  { io with msg := { io.msg with op := msgOpSet, flags := 0, saddr := 0, key := key, val := val } }

/-- A call of one of the two. -/
inductive Request where
  | get (junk : BanoIo) (key : U16) (fn : Option Callback)
  | set (junk : BanoIo) (key : U16) (val : U32) (isAck : Bool) (fn : Option Callback)

def Request.io : Request → BanoIo
  | .get junk key fn => banoAllocGetIo junk key fn
  | .set junk key val isAck fn => banoAllocSetIo junk key val isAck fn

/-- An io that waits for no reply is a SET. -/
theorem Request.op_set (q : Request) (unacked : q.io.waits = false) : q.io.msg.op = msgOpSet := by
  cases q with
  | get junk key fn => simp [Request.io,banoAllocGetIo,banoInitCommonIo,BanoIo.waits,ioFlagReply] at unacked
  | set junk key val isAck fn => rfl

theorem Request.retryMs_waits (q : Request) (waits : q.io.waits = true) : q.io.retryMs = retryMs := by
  cases q with
  | get junk key fn => rfl
  | set junk key val isAck fn =>
    cases isAck with
    | false => simp [Request.io,banoAllocSetIo,banoInitCommonIo,BanoIo.waits] at waits
    | true => rfl

structure NodeVal where
  val : U32
  mtime : Nat
  deriving DecidableEq

structure NodlKeyval where
  flags : U32
  key : U16
  deriving DecidableEq

def nodlFlagNotif : U32 := 1 <<< 11

abbrev Nodl := Store NodlKeyval

/-- The callback keeps what the item found carries. -/
def findKeyvalItem (d : Dict NodlKeyval) (key : U16) (_ data : Ptr) (found : Option Ptr) :
    Option (Int × Option Ptr) := do
  let pair ← d.pairs.cell data
  if pair.val.key ≠ key then some (0,found) else some (-1,some data)

def banoNodlFindKey (nodl : Nodl) (key : U16) : Option NodlKeyval := do
  let (_,found) ← banoDictForeach nodl.dict (findKeyvalItem nodl.dict key) none
  let p ← found
  let pair ← nodl.dict.pairs.cell p
  some pair.val

/-- A node keeps its description by value, since none changes once it is loaded. -/
structure BanoNode where
  flags : U32
  addr : U32
  socket : Ptr
  nodl : Option Nodl
  postedIos : LinkedList Ptr
  pendingIos : LinkedList Ptr
  keyvalPairs : Store NodeVal

def nodeFlagCipher : U32 := 8

/-- The dictionary's lists are taken to be allocated with the node. -/
def banoNodeAlloc (addr : U32) (socket : Ptr) : BanoNode :=
  ⟨0,addr,socket,none,.empty,.empty,.init⟩

def BanoNode.ciphers (n : BanoNode) : Bool := n.flags &&& nodeFlagCipher ≠ 0

inductive SocketType where
  | snrf
  | httpd
  deriving DecidableEq

structure BanoSocket where
  type : SocketType

end Bano
