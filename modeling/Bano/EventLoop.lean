import Bano.Lib.Simulation
import Bano.Sockets

/-! bano_start_loop as it is written: in a turn it peeks, fills the sets of select, lets the head timer expire
or reads and writes what is ready. Each turn is a run of the steps that a loop may take. -/
namespace Bano

open Lib

/-- What a read of a socket returns. -/
inductive ReadRet where
  | again
  | error
  | ok

/-- A read of a socket, with what is read from a radio and from the HTTP server. -/
structure ReadEnv where
  ret : ReadRet
  frame : BanoMsg
  env : Base → FrameEnv
  request : HttpdMsg
  httpEnv : HttpEnv

/-- Which descriptors select finds ready, and what it leaves of the time. -/
structure SelectEnv where
  fails : Bool
  readable : Int → Bool
  writable : Int → Bool
  remaining : Timeval → Timeval

/-- What the outside does in a turn. A callback knows the base that it is called with. -/
structure TurnEnv where
  mallocTimer : Bool
  mallocTimerItem : Bool
  buffered : Ptr → List (BanoMsg × (Base → FrameEnv))
  select : SelectEnv
  timeout : Base → TimeoutEnv
  read : Ptr → ReadEnv
  write : Ptr → Ptr → Base → PostIoEnv

/-- What node_fn does on the nodes that are there at the start, and what happens in each turn. -/
structure Outside where
  start : Ptr → Base → List Post
  turns : List TurnEnv

def ReadEnv.result (r : ReadEnv) : ReadResult :=
  match r.ret with
  | .again => .again
  | .error => .error
  | .ok => .msg r.frame

namespace EventLoop

def nextSocket (s : Loop) (li : Ptr) : Option (Option Ptr) := s.base.sockets.next li

def nextNode (s : Loop) (li : Ptr) : Option (Option Ptr) := s.base.nodes.next li

def nextPosted (node : Ptr) (s : Loop) (it : Ptr) : Option (Option Ptr) := do
  let n ← s.base.nodeMem.cell node
  n.postedIos.next it

section

variable (linfo : LoopInfo) (getFd : Ptr → Int) (fuel : Nat) (env : TurnEnv)

/-- The messages that a radio has buffered. -/
def handleBuffered (li : Ptr) : List (BanoMsg × (Base → FrameEnv)) → Loop → Outcome Loop
  | [], s => .done s
  | (m,fn) :: msgs, s => do
    let b ← .ofOption (Bano.peekMsg linfo (fn s.base) s.base li m)
    handleBuffered li msgs { s with base := b }

/-- The peek function of an HTTP socket has nothing. -/
def peekMsg (li : Ptr) (s : Loop) : Outcome Loop := do
  let socket ← .ofOption (s.base.sockets.data li)
  let k ← .ofOption (s.base.socketMem.cell socket)
  match k.type with
  | .snrf => handleBuffered linfo li (env.buffered li) s
  | .httpd => .done s

/-- A set of descriptors, and one more than the greatest in it. -/
abbrev FdSet := List Int × Int

def setFd (fd : Int) (fds : FdSet) : FdSet := (fd :: fds.1,if fd + 1 > fds.2 then fd + 1 else fds.2)

def fillRset (b : Base) (_ socket : Ptr) (fds : FdSet) : Option (Int × FdSet) := do
  let _ ← b.socketMem.cell socket
  some (0,setFd (getFd socket) fds)

def fillWset (b : Base) (_ node : Ptr) (fds : FdSet) : Option (Int × FdSet) := do
  let n ← b.nodeMem.cell node
  let _ ← b.socketMem.cell n.socket
  if banoListIsEmpty n.postedIos.list then some (0,fds) else some (0,setFd (getFd n.socket) fds)

/-- The sets to read and to write, and nfd. -/
def fillSets (b : Base) : Option (List Int × List Int × Int) := do
  let (_,rset,nfd) ← b.sockets.foreach (fillRset getFd b) ([],0)
  let (_,wset,nfd) ← b.nodes.foreach (fillWset getFd b) ([],nfd)
  some (rset,wset,nfd)

/-- Is the head timer reached once select has updated it? -/
def timerReached (tv : Timeval) (b : Base) : Option Bool := do
  match ← banoTimerGetNext b.timers with
  | none => some false
  | some (timer,_) =>
    let timers ← banoTimerUpdate b.timers timer tv
    let ti ← timers.timers.cell timer
    some (ti.relMs = 0)

def readMsg (rset : List Int) (li : Ptr) (s : Loop) : Outcome Loop := do
  let socket ← .ofOption (s.base.sockets.data li)
  let k ← .ofOption (s.base.socketMem.cell socket)
  if getFd socket ∉ rset then .done s
  else
    let r := env.read li
    match k.type, r.ret with
    | .httpd, .ok => do
      let b ← .ofOption (readHttpd r.httpEnv s.base li r.request)
      .done { s with base := b }
    | _, _ => do
      let b ← .ofOption (Bano.readMsg linfo (r.env s.base) s.base li r.result)
      .done { s with base := b }

def postIo (li node it : Ptr) (s : Loop) : Outcome Loop := do
  let b ← .ofOption (Bano.postIo (env.write li it s.base) s.base node it)
  .done { s with base := b }

def writeMsg (wset : List Int) (li : Ptr) (s : Loop) : Outcome Loop := do
  let node ← .ofOption (s.base.nodes.data li)
  let n ← .ofOption (s.base.nodeMem.cell node)
  let _ ← .ofOption (s.base.socketMem.cell n.socket)
  if getFd n.socket ∉ wset then .done s
  else walk (nextPosted node) (postIo env li node) fuel n.postedIos.list.head s

/-- What is done once select has returned, `wait` being the time it was given. -/
def selected (rset wset : List Int) (wait : Option Timeval) (s : Loop) : Outcome (Lib.Turn Loop Loop) := do
  let rset := rset.filter env.select.readable
  let wset := wset.filter env.select.writable
  let ready := !(rset.isEmpty && wset.isEmpty)
  let tv := env.select.remaining (wait.getD ⟨0,0⟩)
  let reached ← .ofOption (timerReached tv s.base)
  let s ← .ofOption (selectTimer ready tv (env.timeout s.base) s)
  if ready && !reached then do
    let s ← walk nextSocket (readMsg linfo getFd env rset) fuel s.base.sockets.list.head s
    let s ← walk nextNode (writeMsg getFd fuel env wset) fuel s.base.nodes.list.head s
    .done (.next s)
  else .done (.next s)

/-- select waits for one of the sets and the timer; without a timer and a ready descriptor it does not return. -/
def waits (rset wset : List Int) (head : Option (Ptr × Timeval)) : Bool :=
  head.isNone && !rset.any env.select.readable && !wset.any env.select.writable

/-- A turn of bano_start_loop. -/
def turn (s : Loop) : Outcome (Lib.Turn Loop Loop) := do
  let s ← .ofOption (Loop.idleStep linfo (.addTimer env.mallocTimer env.mallocTimerItem) s)
  if s.control = .stopped then .done (.stop s)
  else
    let s ← walk nextSocket (peekMsg linfo env) fuel s.base.sockets.list.head s
    let (rset,wset,nfd) ← .ofOption (fillSets getFd s.base)
    let head ← .ofOption (banoTimerGetNext s.base.timers)
    if nfd ≠ 0 ∨ head.isSome then
      if env.select.fails then .done (.stop { s with control := .stopped })
      else if waits env rset wset head then .running
      else selected linfo getFd fuel env rset wset (head.map Prod.snd) s
    else .done (.next s)

/-- do_new_node on every node, with what node_fn does there. -/
def newNodes (posts : Ptr → Base → List Post) (s : Loop) : Outcome Loop :=
  walk nextNode (fun li s => do
    let b ← .ofOption (doNewNode linfo (posts li s.base) s.base li)
    .done { s with base := b }) fuel s.base.nodes.list.head s

def turns : List TurnEnv → Loop → Outcome (Lib.Turn Loop Loop)
  | [], s => .done (.next s)
  | env :: envs, s => do
    match ← turn linfo getFd fuel env s with
    | .next s => turns envs s
    | .stop s => .done (.stop s)

/-- The loop up to some turn; there is no loop timer at first. -/
def banoStartLoop (outside : Outside) (b : Base) : Outcome (Lib.Turn Loop Loop) := do
  let s ← if linfo.nodeFn then newNodes linfo fuel outside.start ⟨b,none,.idle⟩ else .done ⟨b,none,.idle⟩
  turns linfo getFd fuel outside.turns s

end

variable (linfo : LoopInfo) (outside : Outside)

/-- The steps that may be taken at the start and in the turns. -/
inductive Offers : Service → Loop → Prop where
  | newNode : s.control = .idle → (li,node) ∈ s.base.nodes.entries →
      Offers (.loop (.newNode li (outside.start li s.base))) s
  | addTimer : env ∈ outside.turns → s.control = .idle →
      Offers (.loop (.addTimer env.mallocTimer env.mallocTimerItem)) s
  | peek : env ∈ outside.turns → s.control = .idle → (li,socket) ∈ s.base.sockets.entries →
      (m,fn) ∈ env.buffered li →
      Offers (.loop (.peek li (fn s.base) m)) s
  | read : env ∈ outside.turns → s.control = .idle → (li,socket) ∈ s.base.sockets.entries →
      Offers (.loop (.read li ((env.read li).env s.base) (env.read li).result)) s
  | http : env ∈ outside.turns → s.control = .idle → (li,socket) ∈ s.base.sockets.entries →
      s.base.socketMem.cell socket = some ⟨.httpd⟩ → Offers (.http li (env.read li).httpEnv (env.read li).request) s
  | select (ready : Bool) : env ∈ outside.turns → s.control = .idle → banoTimerGetNext s.base.timers = some head →
      Offers (.loop (.select ready (env.select.remaining ((head.map Prod.snd).getD ⟨0,0⟩)) (env.timeout s.base))) s
  | selectFails : s.control = .idle → Offers (.loop .selectFails) s
  | write : s.control = .idle → (li,node) ∈ s.base.nodes.entries → Offers (.loop (.write li)) s
  | postIo (li : Ptr) : env ∈ outside.turns → s.control = .writing node it →
      Offers (.loop (.postIo (env.write li it s.base))) s

/-- A step that may be taken has no result, or something listed is not there. -/
inductive Broken (s : Loop) : Prop where
  | step : Offers outside service s → Service.step linfo service s = none → Broken s
  | timers : banoTimerGetNext s.base.timers = none → Broken s
  | socket : (li,socket) ∈ s.base.sockets.entries → s.base.socketMem.cell socket = none → Broken s
  | node : (li,node) ∈ s.base.nodes.entries → s.base.nodeMem.cell node = none → Broken s
  | nodeSocket : (li,node) ∈ s.base.nodes.entries → s.base.nodeMem.cell node = some n →
      s.base.socketMem.cell n.socket = none → Broken s

/-- The outcome is that of a run of the steps that may be taken. -/
abbrev Refines (s : Loop) (post : α → Loop → Prop) (o : Outcome α) : Prop :=
  Simulated (Service.step linfo) (Offers outside) (Broken linfo outside) s post o

/-- The next item of a traversal of the sockets. -/
structure AtSocket (pos : Option Ptr) (s t : Loop) : Prop where
  same : t = s
  idle : s.control = .idle
  listed : ∀ li, pos = some li → ∃ socket, (li,socket) ∈ s.base.sockets.entries

structure AtNode (pos : Option Ptr) (s t : Loop) : Prop where
  same : t = s
  idle : s.control = .idle
  listed : ∀ li, pos = some li → ∃ node, (li,node) ∈ s.base.nodes.entries

/-- What an idle loop comes to: an idle loop again. -/
def Idles (s t : Loop) : Prop := t = s ∧ s.control = .idle

variable {linfo outside} {env : TurnEnv}

theorem step_idle {s : Loop} (idle : s.control = .idle) (label : Label) :
    Service.step linfo (.loop label) s = Loop.idleStep linfo label s := by
  simp only [Service.step,Loop.step,idle]

theorem handleBuffered_refines {s : Loop} (turn : env ∈ outside.turns) (idle : s.control = .idle)
    (listed : (li,socket) ∈ s.base.sockets.entries)
    (inside : ∀ e ∈ msgs, e ∈ env.buffered li) :
    Refines linfo outside s (fun s' t => Idles s' t ∧ s'.base.sockets = s.base.sockets)
    (handleBuffered linfo li msgs s) := by
  induction msgs generalizing s with
  | nil => exact .done ⟨⟨rfl,idle⟩,rfl⟩
  | cons e msgs ih =>
    obtain ⟨m,fn⟩ := e
    have offered : Offers outside (.loop (.peek li (fn s.base) m)) s :=
      .peek turn idle listed (inside _ List.mem_cons_self)
    have same : Service.step linfo (.loop (.peek li (fn s.base) m)) s =
        (Bano.peekMsg linfo (fn s.base) s.base li m).map fun b => { s with base := b } := by
      rw [step_idle idle]
      exact (Option.map_eq_bind ..).symm
    apply Simulated.step offered same (.step offered)
    intro b handled
    have kept := (readMsg_sameSockets handled).sockets
    have rest := ih (s := { s with base := b }) idle (kept ▸ listed) fun e member =>
      inside e (List.mem_cons_of_mem _ member)
    exact rest.mono fun s' t holds => ⟨holds.1,holds.2.trans kept⟩

theorem peekMsg_refines {s : Loop} (turn : env ∈ outside.turns) (idle : s.control = .idle)
    (listed : (li,socket) ∈ s.base.sockets.entries) :
    Refines linfo outside s (fun s' t => Idles s' t ∧ s'.base.sockets = s.base.sockets) (peekMsg linfo env li s) := by
  have found := LinkedList.data_eq_some.mpr listed
  unfold peekMsg
  rw [found,Outcome.ofOption_some,Outcome.bind_done]
  apply Simulated.read (.socket listed)
  intro k _
  cases k.type with
  | snrf => exact handleBuffered_refines turn idle listed fun e => id
  | httpd => exact .done ⟨⟨rfl,idle⟩,rfl⟩

end EventLoop
end Bano
