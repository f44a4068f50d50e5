import Bano.Release
import Bano.Setup

/-! The failure of one socket. Freeing a socket frees every node of the base, whatever its socket,
and leaves them all in the list of nodes. -/
namespace Bano

open Lib

inductive SocketFailure where
  | read (li : Ptr)
  | write (env : PostIoEnv) (node li : Ptr)

namespace SocketFailure

def step (linfo : LoopInfo) (env : FrameEnv) : SocketFailure → Base → Option Base
  | read li, b => readMsg linfo env b li .error
  | write env node li, b => postIo { env with writeFails := true } b node li

/-- The socket of a listed item is read, or an io posted to a listed node is written to its socket. -/
def On (b : Base) (s : Ptr) : SocketFailure → Prop
  | read li => (li,s) ∈ b.sockets.entries
  | write _ node li => node ∈ b.nodes.entries.map Prod.snd ∧
      ∃ n io, b.nodeMem.cell node = some n ∧ n.socket = s ∧ (li,io) ∈ n.postedIos.entries

end SocketFailure

/-- Nothing of the nodes, sockets and timers is released. -/
structure NoDangling (b : Base) : Prop where
  node : ∀ e ∈ b.nodes.entries, ∃ n, b.nodeMem.cell e.2 = some n ∧ (∃ s, b.socketMem.cell n.socket = some s) ∧
    ∀ io ∈ listedIos n, ∃ r, b.ioMem.cell io = some r
  socket : ∀ e ∈ b.sockets.entries, ∃ s, b.socketMem.cell e.2 = some s
  timer : ∀ d ∈ entriesOf b.timers.list, ∃ ti, b.timers.timers.cell d.2 = some ti ∧
    ∀ node it, ti.data = some (node,it) → ∃ n, b.nodeMem.cell node = some n ∧
      ∃ i ∈ n.pendingIos.entries, it = some i.1 ∧ ∃ r, b.ioMem.cell i.2 = some r

structure Isolated (b b' : Base) (s : Ptr) : Prop where
  sockets : b'.sockets.entries = b.sockets.entries.filter fun e => e.2 ≠ s
  nodes : b'.nodes.entries = b.nodes.entries.filter fun e => (b.nodeMem.cell e.2).all fun n => n.socket ≠ s
  kept : ∀ e ∈ b'.nodes.entries, ∀ n, b.nodeMem.cell e.2 = some n → ∃ n', b'.nodeMem.cell e.2 = some n' ∧
    n'.postedIos.entries = n.postedIos.entries ∧ n'.pendingIos.entries = n.pendingIos.entries ∧
    ∀ k, n'.keyvalPairs.lookup k = n.keyvalPairs.lookup k
  noDangling : NoDangling b'

/-- Every node is freed and stays listed. -/
theorem readFailure_frees {b : Base} (linfo : LoopInfo) (env : FrameEnv) (consistent : Consistent b)
    (listed : (li,s) ∈ b.sockets.entries) :
    ∃ b', readMsg linfo env b li .error = some b' ∧ b'.nodes = b.nodes ∧
      b'.sockets.entries = b.sockets.entries.filter (fun e => e.1 ≠ li) ∧ b'.timers = b.timers ∧
      (∀ p, b'.socketMem.cell p = if p = s then none else b.socketMem.cell p) ∧
      ∀ p, b'.nodeMem.cell p = if p ∈ b.nodes.entries.map Prod.snd then none else b.nodeMem.cell p := by
  obtain ⟨sock,live⟩ := consistent.socket _ listed
  obtain ⟨mid,freed⟩ := freeNodeItems_some consistent.node consistent.nodesApart consistent.io consistent.iosApart
  obtain ⟨ios,gone,_⟩ := freeNodeItems_released freed
  obtain ⟨sockets,removed⟩ := LinkedList.del_mem listed
  have sockets' : mid.sockets = b.sockets := by rw [gone.same]
  have mem : mid.socketMem = b.socketMem := by rw [gone.same]
  have data : b.sockets.data li = some s := LinkedList.data_eq_some.mpr listed
  refine ⟨{ mid with socketMem := mid.socketMem.erase s, sockets := sockets },?_,?_,
    (LinkedList.del_eq_some removed).1,?_,?_,gone.node⟩
  · have erased : mid.socketMem.free s = some (mid.socketMem.erase s) := Heap.free_live (mem ▸ live)
    simp [readMsg,data,live,banoSocketFree,freed,erased,sockets',removed]
  · show mid.nodes = b.nodes
    rw [gone.same]
  · show mid.timers = b.timers
    rw [gone.same]
  · intro p
    show (mid.socketMem.erase s).cell p = _
    rw [mem]
    rfl

/-- The posted io was released with its node when the code removes its item from the sockets. -/
theorem writeFailure_stuck (env : PostIoEnv) (b : Base) (node li : Ptr) :
    postIo { env with writeFails := true } b node li = none := by
  simp [postIo]

/-- The failure of a socket stays with its nodes only where there is no node to free. -/
theorem isolated_iff (consistent : Consistent b) (failure : SocketFailure) (valid : failure.On b s)
    (linfo : LoopInfo) (env : FrameEnv) : (∃ b', failure.step linfo env b = some b' ∧ Isolated b b' s) ↔
      (∃ li, failure = .read li) ∧ b.nodes.entries = [] := by
  cases failure with
  | write env' node li => simp [SocketFailure.step,writeFailure_stuck]
  | read li =>
    have listed : (li,s) ∈ b.sockets.entries := valid
    obtain ⟨b',read,nodes,sockets,timers,socketMem,nodeMem⟩ := readFailure_frees linfo env consistent listed
    simp only [SocketFailure.step,read,Option.some.injEq,exists_eq_left',SocketFailure.read.injEq,
      exists_eq',true_and]
    constructor
    · intro isolated
      apply List.eq_nil_iff_forall_not_mem.mpr
      intro e member
      obtain ⟨n,cell,_⟩ := isolated.noDangling.node e (nodes ▸ member)
      rw [nodeMem,if_pos (List.mem_map_of_mem member)] at cell
      simp at cell
    · intro empty
      have empty' : b'.nodes.entries = [] := by rw [nodes,empty]
      have apart : ∀ e ∈ b.sockets.entries, e.1 ≠ li ↔ e.2 ≠ s := by
        intro e member
        have one := List.inj_on_of_nodup_map consistent.socketsApart member listed
        have other := List.inj_on_of_nodup_map b.sockets.nodup member listed
        exact not_congr ⟨fun same => congrArg Prod.snd (other same),fun same => congrArg Prod.fst (one same)⟩
      have filtered : b'.sockets.entries = b.sockets.entries.filter fun e => e.2 ≠ s := by
        rw [sockets]
        exact List.filter_congr fun e member => by simp only [apart e member]
      refine ⟨filtered,by rw [empty',empty]; rfl,by simp [empty'],⟨by simp [empty'],?_,?_⟩⟩
      · intro e member
        rw [filtered,List.mem_filter] at member
        obtain ⟨sock,live⟩ := consistent.socket e member.1
        exact ⟨sock,by rw [socketMem,if_neg (by simpa using member.2),live]⟩
      · intro d member
        rw [timers] at member ⊢
        obtain ⟨ti,cell,_⟩ := consistent.queued.timer d member
        refine ⟨ti,cell,fun node it data => ?_⟩
        obtain ⟨e,member',_⟩ := consistent.designates d member ti cell node it data
        simp [empty] at member'

theorem twoSockets_first : SocketFailure.On twoSockets 0 (.read 0) :=
  show (0,0) ∈ twoSockets.sockets.entries by decide

theorem isolated_iff_twoSockets : (∃ b', SocketFailure.step bareLoop bareEnv (.read 0) twoSockets = some b' ∧
    Isolated twoSockets b' 0) ↔ (∃ li, SocketFailure.read 0 = .read li) ∧ twoSockets.nodes.entries = [] :=
  isolated_iff twoSockets_idle.consistent (.read 0) twoSockets_first bareLoop bareEnv

/-- The node of the second socket does not survive the failure of the first. -/
theorem readFailure_spreads : ¬∀ b s failure linfo env, Consistent b → SocketFailure.On b s failure →
    ∃ b', failure.step linfo env b = some b' ∧ Isolated b b' s := by
  intro allIsolated
  have consistent := twoSockets_idle.consistent
  obtain ⟨b',read,isolated⟩ := allIsolated twoSockets 0 (.read 0) bareLoop bareEnv consistent twoSockets_first
  obtain ⟨b'',read',nodes,_,_,_,freed⟩ := readFailure_frees bareLoop bareEnv consistent twoSockets_first
  obtain rfl := Option.some.inj (read.symm.trans read')
  have listed : (0,0) ∈ b'.nodes.entries := by rw [nodes]; decide
  obtain ⟨n,cell,_⟩ := isolated.noDangling.node _ listed
  rw [freed,if_pos (by decide)] at cell
  simp at cell

end Bano
