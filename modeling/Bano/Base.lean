import Bano.Cipher
import Bano.Node
import Bano.Timer

/-! The base of bano_base.c: posting and writing ios, handling frames, expiring timers and
releasing nodes and sockets. A result of none is an access to something released or NULL. -/
namespace Bano

open Lib

/-- What the outside sees of the base, and when ios are accepted and released. -/
inductive Event where
  | posted (node io : Ptr) (r : BanoIo)
  | written (node io : Ptr) (addr : U32) (frame : BanoMsg)
  | answered (io : Ptr) (msg : BanoMsg)
  | completed (io : Ptr) (err val : U32)
  | released (io : Ptr)
  | sms (val : U32)
  | setFn (node : Ptr) (key : U16) (val : U32)
  | getFn (node : Ptr) (key : U16)
  | newNode (node : Ptr)
  | timerFn
  deriving DecidableEq

def baseFlagNewNodes : U32 := 4

structure Base where
  flags : U32
  cipher : BanoCipher
  nodls : Store Nodl
  nodes : LinkedList Ptr
  sockets : LinkedList Ptr
  timers : TimerQueue
  nodeMem : Heap BanoNode
  ioMem : Heap BanoIo
  socketMem : Heap BanoSocket
  trace : List Event

namespace Base

def emit (b : Base) (e : Event) : Base := { b with trace := b.trace ++ [e] }

/-- Storing a node that is live. -/
def setNode (b : Base) (p : Ptr) (n : BanoNode) : Base := { b with nodeMem := b.nodeMem.modify p fun _ => n }

def setIo (b : Base) (p : Ptr) (r : BanoIo) : Base := { b with ioMem := b.ioMem.modify p fun _ => r }

end Base

def banoPostIo (malloc : Bool) (b : Base) (node io : Ptr) : Option (Int × Base) := do
  let n ← b.nodeMem.cell node
  let (err,posted) := n.postedIos.addTail malloc io
  if err ≠ 0 then some (-1,b)
  else
    let r ← b.ioMem.cell io
    let r := { r with node := some node }
    some (0,((b.setNode node { n with postedIos := posted }).setIo io r).emit (.posted node io r))

/-- An io that is allocated, and posted to a node. -/
structure Post where
  request : Request
  node : Ptr
  malloc : Bool

/-- The creator frees an io that was not accepted. -/
def postNew (b : Base) (p : Post) : Option Base := do
  let io := b.ioMem.next
  let (err,b) ← banoPostIo p.malloc { b with ioMem := b.ioMem.alloc p.request.io } p.node io
  if err = 0 then some b else some { b with ioMem := b.ioMem.erase io }

/-- What a callback does to the base: it may post new ios. -/
def runPosts : List Post → Base → Option Base
  | [], b => some b
  | p :: posts, b => do
    let b ← postNew b p
    runPosts posts b

/-- Setting the completion fields and calling the completion function. -/
def complete (b : Base) (io : Ptr) (f : BanoIo → BanoIo) (posts : List Post) : Option Base := do
  let r ← b.ioMem.cell io
  runPosts posts ((b.setIo io (f r)).emit (.completed io (f r).complErr (f r).complVal))

/-- compl_fn may be NULL. -/
def completeIo (b : Base) (io : Ptr) (r : BanoIo) (f : BanoIo → BanoIo) (posts : List Post) : Option Base :=
  if r.complFn.isSome then complete b io f posts else some b

def banoFreeIo (b : Base) (io : Ptr) : Option Base := do
  let ioMem ← b.ioMem.free io
  some (Base.emit { b with ioMem := ioMem } (.released io))

def freeIoItems : List (Ptr × Ptr) → Base → Option Base
  | [], b => some b
  | e :: es, b => do
    let b ← banoFreeIo b e.2
    freeIoItems es b

def banoNodeFree (b : Base) (node : Ptr) : Option Base := do
  let n ← b.nodeMem.cell node
  let b ← freeIoItems n.postedIos.entries b
  let b ← freeIoItems n.pendingIos.entries b
  let nodeMem ← b.nodeMem.free node
  some { b with nodeMem := nodeMem }

def freeNodeItems : List (Ptr × Ptr) → Base → Option Base
  | [], b => some b
  | e :: es, b => do
    let b ← banoNodeFree b e.2
    freeNodeItems es b

def banoSocketFree (b : Base) (socket : Ptr) : Option Base := do
  let b ← freeNodeItems b.nodes.entries b
  let socketMem ← b.socketMem.free socket
  some { b with socketMem := socketMem }

/-- What is written for an io of the node. -/
def encMsg (b : Base) (n : BanoNode) (m : BanoMsg) : BanoMsg :=
  if n.ciphers then
    let e := m.withBody (banoCipherEnc b.cipher m.body).2
    { e with flags := e.flags ||| msgFlagEnc }
  else m

def writtenIo (r : BanoIo) : BanoIo := { r with complErr := ioErrSuccess }

structure PostIoEnv where
  writeFails : Bool
  mallocPending : Bool
  mallocTimer : Bool
  mallocTimerItem : Bool
  posts : List Post

def postIo (env : PostIoEnv) (b : Base) (node li : Ptr) : Option Base := do
  let n ← b.nodeMem.cell node
  let io ← n.postedIos.data li
  let r ← b.ioMem.cell io
  if env.writeFails then
    let _ ← banoSocketFree b n.socket
    -- bano_list_del(&pid->base->sockets, li): the item was released with its node
    none
  else
    let b := b.emit (.written node io n.addr (encMsg b n r.msg))
    if r.waits then
      -- move in pending io list
      let pending := (n.pendingIos.addTail env.mallocPending io).2
      let b := b.setNode node { n with pendingIos := pending }
      let (timer,timers) ← banoTimerAdd env.mallocTimer env.mallocTimerItem b.timers r.retryMs
      match timer with
      | none => some { b with timers := timers }
      | some t =>
        let ti ← timers.timers.update t fun ti => { ti with data := some (node,pending.list.tail) }
        let b := Base.setIo { b with timers := ⟨timers.list,ti⟩ } io { r with timer := some t }
        -- destroy list item
        let posted ← n.postedIos.del li
        some (b.setNode node { n with postedIos := posted, pendingIos := pending })
    else
      -- complete and destroy the io
      let b ← completeIo b io r writtenIo env.posts
      let b ← banoFreeIo b io
      let n ← b.nodeMem.cell node
      let posted ← n.postedIos.del li
      some (b.setNode node { n with postedIos := posted })

def cmpNodeAddr (b : Base) (addr : U32) (_ node : Ptr) (found : Option Ptr) : Option (Int × Option Ptr) := do
  let n ← b.nodeMem.cell node
  if n.addr ≠ addr then some (0,found) else some (-1,some node)

def findNodeByAddr (b : Base) (addr : U32) : Option (Option Ptr) := do
  let (_,found) ← b.nodes.foreach (cmpNodeAddr b addr) none
  some found

/-- A reply answers a SET of its key and value, or a GET of its key. -/
def BanoMsg.answers (answ pend : BanoMsg) : Bool :=
  if pend.op = msgOpSet then pend.val = answ.val && pend.key = answ.key else pend.key = answ.key

def cmpPendingIo (b : Base) (n : BanoNode) (answ : BanoMsg) (li io : Ptr) (found : Option (Ptr × Ptr)) :
    Option (Int × Option (Ptr × Ptr)) := do
  if n.addr ≠ answ.saddr then some (0,found)
  else
    let r ← b.ioMem.cell io
    if answ.answers r.msg then some (-1,some (li,io)) else some (0,found)

def findPendingIo (b : Base) (node : Ptr) (answ : BanoMsg) : Option (Option Ptr × Base) := do
  let n ← b.nodeMem.cell node
  let (_,found) ← n.pendingIos.foreach (cmpPendingIo b n answ) none
  match found with
  | none => some (none,b)
  | some (li,io) =>
    let pending ← n.pendingIos.del li
    some (some io,b.setNode node { n with pendingIos := pending })

/-- The callbacks that are set, and the loop timer. -/
structure LoopInfo where
  setFn : Bool
  getFn : Bool
  nodeFn : Bool
  timerFn : Bool
  timerMs : U32

/-- `sec` is what gettimeofday tells; the posts are those of node_fn and of the other callback. -/
structure FrameEnv where
  sec : Nat
  junk : NodeVal
  mallocNode : Bool
  mallocNodeItem : Bool
  mallocPair : Bool
  mallocPairItem : Bool
  nodePosts : List Post
  posts : List Post

def setPair (env : FrameEnv) (b : Base) (node : Ptr) (n : BanoNode) (msg : BanoMsg) : Base :=
  let pairs := (n.keyvalPairs.setOrAdd env.mallocPair env.mallocPairItem env.junk
    (msg.key.setWidth 32) ⟨msg.val,env.sec⟩).2
  b.setNode node { n with keyvalPairs := pairs }

/-- Adding to the node's pairs, before possibly completing. -/
def addPair (env : FrameEnv) (b : Base) (node : Ptr) (n : BanoNode) (msg : BanoMsg) : Base :=
  if msg.has msgFlagErr then b
  else
    match n.nodl with
    | none => setPair env b node n msg
    | some nodl =>
      match banoNodlFindKey nodl msg.key with
      | none => b
      | some kv =>
        -- notify a set operation
        let b := if kv.flags &&& nodlFlagNotif ≠ 0 then b.emit (.sms msg.val) else b
        setPair env b node n msg

def answerIo (msg : BanoMsg) (r : BanoIo) : BanoIo :=
  if msg.has msgFlagErr then { r with complErr := ioErrFailure }
  else { r with complErr := ioErrSuccess, complVal := msg.val }

def handleSetMsg (linfo : LoopInfo) (env : FrameEnv) (b : Base) (msg : BanoMsg) (node : Ptr) :
    Option Base := do
  let n ← b.nodeMem.cell node
  let b := addPair env b node n msg
  if msg.has msgFlagReply then
    -- this is a reply, check pending messages
    match ← findPendingIo b node msg with
    | (none,b) => some b
    | (some io,b) =>
      let b := b.emit (.answered io msg)
      let r ← b.ioMem.cell io
      let b ← completeIo b io r (answerIo msg) env.posts
      let t ← r.timer
      let timers ← banoTimerDel b.timers t
      banoFreeIo { b with timers := timers } io
  else if linfo.setFn then
    -- standard set message
    runPosts env.posts (b.emit (.setFn node msg.key msg.val))
  else some b

def handleGetMsg (linfo : LoopInfo) (env : FrameEnv) (b : Base) (msg : BanoMsg) (node : Ptr) : Option Base :=
  if linfo.getFn then runPosts env.posts (b.emit (.getFn node msg.key)) else some b

def dispatch (linfo : LoopInfo) (env : FrameEnv) (b : Base) (msg : BanoMsg) (node : Ptr) : Option Base :=
  if msg.op = msgOpSet then handleSetMsg linfo env b msg node
  else if msg.op = msgOpGet then handleGetMsg linfo env b msg node
  else some b

/-- The message as it is read: deciphered when its clear byte says so. -/
def decMsg (b : Base) (msg : BanoMsg) : BanoMsg :=
  if msg.has msgFlagEnc then msg.withBody (banoCipherDec b.cipher msg.body).2 else msg

def callNodeFn (linfo : LoopInfo) (env : FrameEnv) (b : Base) (node : Ptr) : Option Base :=
  if linfo.nodeFn then runPosts env.nodePosts (b.emit (.newNode node)) else some b

def handleBanoMsg (linfo : LoopInfo) (env : FrameEnv) (b : Base) (socket : Ptr) (msg : BanoMsg) :
    Option (Int × Base) := do
  let msg := decMsg b msg
  match ← findNodeByAddr b msg.saddr with
  | some node =>
    let b ← dispatch linfo env b msg node
    some (0,b)
  | none =>
    if b.flags &&& baseFlagNewNodes = 0 then some (0,b)
    else if env.mallocNode then
      -- new node
      let node := b.nodeMem.next
      let (err,nodes) := b.nodes.addTail env.mallocNodeItem node
      if err ≠ 0 then some (-1,b)
      else
        let b := { b with nodes := nodes, nodeMem := b.nodeMem.alloc (banoNodeAlloc msg.saddr socket) }
        let b ← callNodeFn linfo env b node
        let b ← dispatch linfo env b msg node
        some (0,b)
    else some (-1,b)

inductive ReadResult where
  | again
  | error
  | msg (m : BanoMsg)

/-- read_msg on a socket whose descriptor is ready; the requests of an httpd socket are not followed. -/
def readMsg (linfo : LoopInfo) (env : FrameEnv) (b : Base) (li : Ptr) (result : ReadResult) : Option Base := do
  let socket ← b.sockets.data li
  let s ← b.socketMem.cell socket
  match result with
  -- msg partially filled, redo select
  | .again => some b
  | .error =>
    let b ← banoSocketFree b socket
    let sockets ← b.sockets.del li
    some { b with sockets := sockets }
  | .msg m =>
    if s.type = .snrf then
      let (_,b) ← handleBanoMsg linfo env b socket m
      some b
    else some b

/-- One message that peek_msg finds buffered in a socket. -/
def peekMsg (linfo : LoopInfo) (env : FrameEnv) (b : Base) (li : Ptr) (m : BanoMsg) : Option Base :=
  readMsg linfo env b li (.msg m)

structure TimeoutEnv where
  mallocPosted : Bool
  posts : List Post

def timeoutIo (r : BanoIo) : BanoIo := { r with complErr := ioErrTimeout }

def expiring (r : BanoIo) : BanoIo := { r with retryCount := r.retryCount - 1 }

/-- The io of an expired timer, `r` being read before its count is decremented. -/
def expireIo (env : TimeoutEnv) (b : Base) (io : Ptr) (r : BanoIo) : Option Base :=
  if r.retryCount = 0 then do
    -- complete and destroy
    let b ← completeIo b io r timeoutIo env.posts
    banoFreeIo b io
  else do
    -- repost
    let dest ← r.node
    let d ← b.nodeMem.cell dest
    let (err,posted) := d.postedIos.addTail env.mallocPosted io
    if err = 0 then some (b.setNode dest { d with postedIos := posted })
    else do
      -- do_complete_io is past the test of compl_fn
      let _ ← r.complFn
      let b ← complete b io timeoutIo env.posts
      banoFreeIo b io

/-- The timer of a pending io has expired. -/
def expirePending (env : TimeoutEnv) (b : Base) (t : Ptr) : Option Base := do
  let ti ← b.timers.timers.cell t
  let (node,it) ← ti.data
  let it ← it
  let n ← b.nodeMem.cell node
  let io ← n.pendingIos.data it
  let r ← b.ioMem.cell io
  let b ← expireIo env (b.setIo io (expiring r)) io r
  -- delete from list
  let n ← b.nodeMem.cell node
  let pending ← n.pendingIos.del it
  let timers ← banoTimerDel b.timers t
  some { b.setNode node { n with pendingIos := pending } with timers := timers }

def freeTimerItems : List (Ptr × Ptr) → TimerQueue → Option TimerQueue
  | [], q => some ⟨⟨none,none,q.list.items⟩,q.timers⟩
  | e :: es, q => do
    let timers ← q.timers.free e.2
    let items ← q.list.items.free e.1
    freeTimerItems es ⟨⟨q.list.head,q.list.tail,items⟩,timers⟩

def banoTimerFini (q : TimerQueue) : Option TimerQueue := freeTimerItems (entriesOf q.list) q

def freeSocketItems : List (Ptr × Ptr) → Base → Option Base
  | [], b => some b
  | e :: es, b => do
    let b ← banoSocketFree b e.2
    freeSocketItems es b

def banoClose (b : Base) : Option Base := do
  let timers ← banoTimerFini b.timers
  let b ← freeNodeItems b.nodes.entries { b with timers := timers }
  let b ← freeSocketItems b.sockets.entries { b with nodes := .empty }
  some { b with sockets := .empty }

def listedIos (n : BanoNode) : List Ptr := (n.postedIos.entries ++ n.pendingIos.entries).map Prod.snd

/-- The lists and timers refer to what is live, and nothing is listed twice. -/
structure Consistent (b : Base) : Prop where
  node : ∀ e ∈ b.nodes.entries, ∃ n, b.nodeMem.cell e.2 = some n
  nodesApart : (b.nodes.entries.map Prod.snd).Nodup
  socket : ∀ e ∈ b.sockets.entries, ∃ s, b.socketMem.cell e.2 = some s
  socketsApart : (b.sockets.entries.map Prod.snd).Nodup
  attached : ∀ e ∈ b.nodes.entries, ∀ n, b.nodeMem.cell e.2 = some n → n.socket ∈ b.sockets.entries.map Prod.snd
  io : ∀ e ∈ b.nodes.entries, ∀ n, b.nodeMem.cell e.2 = some n →
    ∀ i ∈ n.postedIos.entries ++ n.pendingIos.entries, ∃ r, b.ioMem.cell i.2 = some r ∧ r.node = some e.2
  iosApart : ∀ e ∈ b.nodes.entries, ∀ n, b.nodeMem.cell e.2 = some n → (listedIos n).Nodup
  queued : Queued Half b.timers (entriesOf b.timers.list)
  timed : ∀ e ∈ b.nodes.entries, ∀ n, b.nodeMem.cell e.2 = some n → ∀ i ∈ n.pendingIos.entries,
    ∀ r, b.ioMem.cell i.2 = some r → ∃ d ∈ entriesOf b.timers.list, r.timer = some d.2
  designates : ∀ d ∈ entriesOf b.timers.list, ∀ ti, b.timers.timers.cell d.2 = some ti → ∀ node it,
    ti.data = some (node,it) →
    ∃ e ∈ b.nodes.entries, e.2 = node ∧ ∃ n, b.nodeMem.cell node = some n ∧
      ∃ i ∈ n.pendingIos.entries, it = some i.1

end Bano
