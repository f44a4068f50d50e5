import Bano.Base

/-! A base before its loop: opened, then given sockets and nodes. -/
namespace Bano

open Lib

def banoOpen (flags : U32) : Base where
  flags := flags
  cipher := ⟨.none,0⟩
  nodls := .init
  nodes := .empty
  sockets := .empty
  timers := banoTimerInit
  nodeMem := .empty
  ioMem := .empty
  socketMem := .empty
  trace := []

/-- Opening the device is taken to succeed. -/
def banoAddSocket (malloc mallocItem : Bool) (b : Base) (type : SocketType) : Option (Int × Base) :=
  if malloc then
    let s := b.socketMem.next
    let (err,sockets) := b.sockets.addTail mallocItem s
    if err ≠ 0 then do
      let b ← banoSocketFree { b with socketMem := b.socketMem.alloc ⟨type⟩ } s
      some (-1,b)
    else some (0,{ b with sockets := sockets, socketMem := b.socketMem.alloc ⟨type⟩ })
  else some (-1,b)

structure BanoNodeInfo where
  flags : U32
  addr : U32
  nodlId : U32
  socket : Ptr

def nodeFlagAddr : U32 := 1

def nodeFlagNodlId : U32 := 4

def nodeFlagSocket : U32 := 16

def nodeFlagName : U32 := 32

/-- What bano_add_node takes from the info. -/
def infoNode (info : BanoNodeInfo) : BanoNode :=
  let n := banoNodeAlloc info.addr info.socket
  let n := if info.flags &&& nodeFlagCipher ≠ 0 then { n with flags := n.flags ||| nodeFlagCipher } else n
  if info.flags &&& nodeFlagName ≠ 0 then { n with flags := n.flags ||| nodeFlagName } else n

def banoAddNode (malloc mallocItem : Bool) (b : Base) (info : BanoNodeInfo) : Option (Int × Base) :=
  if info.flags &&& nodeFlagSocket = 0 then some (-1,b)
  else if info.flags &&& nodeFlagAddr = 0 then some (-1,b)
  else if info.flags &&& nodeFlagNodlId = 0 then some (-1,b)
  else if malloc then
    let node := b.nodeMem.next
    match b.nodls.lookup info.nodlId with
    | none => do
      let b ← banoNodeFree { b with nodeMem := b.nodeMem.alloc (infoNode info) } node
      some (-1,b)
    | some nodl =>
      let n := { infoNode info with nodl := some nodl }
      let (err,nodes) := b.nodes.addTail mallocItem node
      if err ≠ 0 then do
        let b ← banoNodeFree { b with nodeMem := b.nodeMem.alloc n } node
        some (-1,b)
      else some (0,{ b with nodes := nodes, nodeMem := b.nodeMem.alloc n })
  else some (-1,b)

/-- No io was allocated yet. -/
structure Idle (b : Base) : Prop where
  node : ∀ e ∈ b.nodes.entries, ∃ n, b.nodeMem.cell e.2 = some n
  nodesApart : (b.nodes.entries.map Prod.snd).Nodup
  socket : ∀ e ∈ b.sockets.entries, ∃ s, b.socketMem.cell e.2 = some s
  socketsApart : (b.sockets.entries.map Prod.snd).Nodup
  attached : ∀ e ∈ b.nodes.entries, ∀ n, b.nodeMem.cell e.2 = some n → n.socket ∈ b.sockets.entries.map Prod.snd
  unused : ∀ p n, b.nodeMem.cell p = some n → n.postedIos.entries = [] ∧ n.pendingIos.entries = []
  timers : b.timers = banoTimerInit
  ioMem : b.ioMem = .empty
  trace : b.trace = []

theorem Idle.consistent {b : Base} (idle : Idle b) : Consistent b := by
  have noTimers : entriesOf b.timers.list = [] := by rw [idle.timers]; rfl
  refine ⟨idle.node,idle.nodesApart,idle.socket,idle.socketsApart,idle.attached,?_,?_,?_,?_,?_⟩
  · intro e _ n cell i member
    simp [idle.unused e.2 n cell] at member
  · intro e _ n cell
    simp [listedIos,idle.unused e.2 n cell]
  · rw [idle.timers]
    exact banoTimerInit_queued _
  · intro e _ n cell i member
    simp [idle.unused e.2 n cell] at member
  · simp [noTimers]

theorem banoOpen_idle (flags : U32) : Idle (banoOpen flags) := by
  constructor <;> simp [banoOpen]

/-- A list of live cells stays one when a new cell is appended. -/
theorem live_append {mem : Heap β} {l l' : LinkedList Ptr} (live : ∀ e ∈ l.entries, ∃ x, mem.cell e.2 = some x)
    (apart : (l.entries.map Prod.snd).Nodup) (added : l'.entries = l.entries ++ [(it,mem.next)]) (x : β) :
    (∀ e ∈ l'.entries, ∃ x', (mem.alloc x).cell e.2 = some x') ∧ (l'.entries.map Prod.snd).Nodup := by
  rw [added]
  constructor
  · intro e member
    rcases List.mem_append.mp member with old | new
    · obtain ⟨x',cell⟩ := live e old
      exact ⟨x',Heap.alloc_cell_live cell x⟩
    · obtain rfl := List.mem_singleton.mp new
      exact ⟨x,Heap.alloc_cell_next _ _⟩
  · rw [List.map_append,List.nodup_append]
    refine ⟨apart,by simp,?_⟩
    rintro p member q new rfl
    obtain ⟨e,listed,rfl⟩ := List.mem_map.mp member
    obtain ⟨x',cell⟩ := live e listed
    simp at new
    exact Heap.next_ne cell new

theorem Idle.addSocket {b : Base} (idle : Idle b)
    (entries : sockets.entries = b.sockets.entries ++ [(it,b.socketMem.next)])
    (type : SocketType) : Idle { b with sockets := sockets, socketMem := b.socketMem.alloc ⟨type⟩ } := by
  have grown := live_append idle.socket idle.socketsApart entries ⟨type⟩
  refine ⟨idle.node,idle.nodesApart,grown.1,grown.2,?_,idle.unused,idle.timers,idle.ioMem,idle.trace⟩
  intro e listed n cell
  simp only [entries,List.map_append,List.mem_append]
  exact .inl (idle.attached e listed n cell)

theorem Idle.addNode {b : Base} (idle : Idle b) (attached : n.socket ∈ b.sockets.entries.map Prod.snd)
    (posted : n.postedIos = .empty) (pending : n.pendingIos = .empty)
    (entries : nodes.entries = b.nodes.entries ++ [(it,b.nodeMem.next)]) :
    Idle { b with nodes := nodes, nodeMem := b.nodeMem.alloc n } := by
  have grown := live_append idle.node idle.nodesApart entries n
  have fresh : ∀ p m, (b.nodeMem.alloc n).cell p = some m → m = n ∨ b.nodeMem.cell p = some m := by
    intro p m cell
    by_cases here : p = b.nodeMem.next
    · subst here
      rw [Heap.alloc_cell_next] at cell
      exact .inl (Option.some.inj cell).symm
    · exact .inr (by simpa [here] using cell)
  refine ⟨grown.1,grown.2,idle.socket,idle.socketsApart,?_,?_,idle.timers,idle.ioMem,idle.trace⟩
  · intro e listed m cell
    rcases List.mem_append.mp (entries ▸ listed) with old | new
    · apply idle.attached e old m
      obtain ⟨_,live⟩ := idle.node e old
      rwa [← Heap.alloc_cell_other (Heap.next_ne live)]
    · obtain rfl := List.mem_singleton.mp new
      rw [Heap.alloc_cell_next] at cell
      obtain rfl := Option.some.inj cell
      exact attached
  · intro p m cell
    rcases fresh p m cell with rfl | old
    · simp [posted,pending]
    · exact idle.unused p m old

theorem banoAddSocket_idle (idle : Idle b) (result : banoAddSocket malloc mallocItem b type = some (0,b')) :
    Idle b' ∧ b'.sockets.entries = b.sockets.entries ++ [(b.sockets.nextItem,b.socketMem.next)] := by
  unfold banoAddSocket at result
  split at result
  · rcases b.sockets.addTail_cases mallocItem b.socketMem.next with failed | ⟨sockets,added,entries,_⟩
    · simp [failed,Option.bind_eq_some_iff] at result
    · simp only [added,ne_eq,not_true,if_false,Option.some.injEq,Prod.mk.injEq,true_and] at result
      subst result
      exact ⟨idle.addSocket entries type,entries⟩
  · simp at result

theorem infoNode_fields (info : BanoNodeInfo) : (infoNode info).socket = info.socket ∧
    (infoNode info).postedIos = .empty ∧ (infoNode info).pendingIos = .empty ∧
    (infoNode info).keyvalPairs = .init := by
  unfold infoNode
  dsimp only
  split <;> split <;> exact ⟨rfl,rfl,rfl,rfl⟩

theorem banoAddNode_some {b : Base} (socket : info.flags &&& nodeFlagSocket ≠ 0)
    (addr : info.flags &&& nodeFlagAddr ≠ 0)
    (nodlId : info.flags &&& nodeFlagNodlId ≠ 0) (found : b.nodls.lookup info.nodlId = some nodl) :
    banoAddNode true true b info = some (0,{ b with
      nodes := (b.nodes.addTail true b.nodeMem.next).2
      nodeMem := b.nodeMem.alloc { infoNode info with nodl := some nodl } }) := by
  obtain ⟨nodes,added,_⟩ := b.nodes.addTail_true b.nodeMem.next
  rw [banoAddNode,if_neg socket,if_neg addr,if_neg nodlId]
  simp [found,added]

theorem banoAddNode_idle (idle : Idle b) (attached : info.socket ∈ b.sockets.entries.map Prod.snd)
    (result : banoAddNode malloc mallocItem b info = some (0,b')) : Idle b' := by
  obtain ⟨socket,posted,pending,_⟩ := infoNode_fields info
  unfold banoAddNode at result
  split at result
  · simp at result
  split at result
  · simp at result
  split at result
  · simp at result
  split at result
  · cases found : b.nodls.lookup info.nodlId with
    | none => simp [found,Option.bind_eq_some_iff] at result
    | some nodl =>
      rcases b.nodes.addTail_cases mallocItem b.nodeMem.next with failed | ⟨nodes,added,entries,_⟩
      · simp [found,failed,Option.bind_eq_some_iff] at result
      · simp only [found,added,ne_eq,not_true,if_false,Option.some.injEq,Prod.mk.injEq,true_and] at result
        subst result
        have attached' : (infoNode info).socket ∈ b.sockets.entries.map Prod.snd := socket ▸ attached
        exact idle.addNode attached' posted pending entries
  · simp at result

def pairInfo (socket : Ptr) : BanoNodeInfo where
  flags := nodeFlagAddr ||| nodeFlagNodlId ||| nodeFlagSocket
  addr := 0xa5a5a5a5
  nodlId := 0
  socket := socket

/-- Two sockets, and a node on the second. -/
def twoSockets : Base :=
  { banoOpen 0 with
    nodls := (Store.init.setOrAdd true true .init 0 .init).2
    sockets := ((LinkedList.empty.addTail true 0).2.addTail true 1).2
    socketMem := (Heap.empty.alloc ⟨.snrf⟩).alloc ⟨.snrf⟩
    nodes := (LinkedList.empty.addTail true 0).2
    nodeMem := Heap.empty.alloc { infoNode (pairInfo 1) with nodl := some .init } }

theorem twoSockets_idle : Idle twoSockets := by
  have start : Idle { banoOpen 0 with nodls := (Store.init.setOrAdd true true .init 0 .init).2 } := by
    constructor <;> simp [banoOpen]
  obtain ⟨one,_⟩ := banoAddSocket_idle start (show banoAddSocket true true _ .snrf = some (0,_) from rfl)
  obtain ⟨two,sockets⟩ := banoAddSocket_idle one (show banoAddSocket true true _ .snrf = some (0,_) from rfl)
  have found : (Store.init.setOrAdd true true .init 0 .init).2.lookup (pairInfo 1).nodlId = some (.init : Nodl) := by
    simp [Store.lookup_setOrAdd,pairInfo]
  exact banoAddNode_idle two (by rw [sockets]; decide) (banoAddNode_some (by decide) (by decide) (by decide) found)

/-- A loop without callbacks. -/
def bareLoop : LoopInfo := ⟨false,false,false,false,0⟩

def bareEnv : FrameEnv := ⟨0,⟨0,0⟩,true,true,true,true,[],[]⟩

def bareWrite : PostIoEnv := ⟨false,true,true,true,[]⟩

def junkIo : BanoIo := ⟨none,0,none,0,0,0,0,none,⟨0,0,0,0,0,0,0⟩⟩

end Bano
