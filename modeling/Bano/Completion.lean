import Bano.Ledger
import Bano.Setup
import Bano.Steps

/-! No io is dropped silently, except by what releases whole nodes: closing the base and freeing
a socket release the ios of every node without calling their completion functions. -/
namespace Bano

open Lib

theorem completed_ledger {b : Base} (ledger : Ledger b.ioMem b.trace none) (cell : b.ioMem.cell io = some r)
    (keeps : (f r).complFn = r.complFn ∧ (f r).flags = r.flags ∧ (f r).msg = r.msg ∧ (f r).node = r.node)
    (excused : ∀ node r', .posted node io r' ∈ b.trace → Excused b.trace io r' (f r).complErr) :
    Ledger (completed b io r f).ioMem (completed b io r f).trace (some io) := by
  unfold completed
  split
  · next fn =>
    have modified := ledger.modify io (fun _ => f r) fun r' live => by
      obtain rfl := Option.some.inj (cell.symm.trans live)
      exact keeps
    exact modified.call (r := f r) (by simp [cell]) (keeps.1 ▸ fn) excused
  · next silent => exact ledger.skip cell (by simpa using silent)

theorem runPosts_ledger {b b' : Base} (ledger : Ledger b.ioMem b.trace busy) (result : runPosts posts b = some b') :
    Ledger b'.ioMem b'.trace busy := by
  refine runPosts_induct (P := fun b => Ledger b.ioMem b.trace busy) (fun b p b' ledger posted => ?_) result ledger
  rcases postNew_cases posted with rfl | ⟨n,posted,cell,_,_,rfl⟩
  · exact ledger.congr (Heap.alloc_erase_cell _ _) (Nat.le_succ _)
  · exact ledger.accept _ rfl fun unacked => p.request.op_set unacked

/-- Completing, then releasing. -/
theorem finished_ledger {b mid : Base} (ledger : Ledger b.ioMem b.trace none) (cell : b.ioMem.cell io = some r)
    (keeps : (f r).complFn = r.complFn ∧ (f r).flags = r.flags ∧ (f r).msg = r.msg ∧ (f r).node = r.node)
    (excused : ∀ node r', .posted node io r' ∈ b.trace → Excused b.trace io r' (f r).complErr)
    (called : runPosts posts (completed b io r f) = some mid) :
    Ledger (mid.ioMem.erase io) (mid.trace ++ [.released io]) none :=
  (runPosts_ledger (completed_ledger ledger cell keeps excused) called).release

theorem Ledger.written (ledger : Ledger ioMem trace none) (live : ioMem.cell io = some r) (node : Ptr) (addr : U32)
    (frame : BanoMsg) :
    Ledger ioMem (trace ++ [.written node io addr frame]) none := by
  apply ledger.passive (by simp [Event.passive])
  intro e member i about
  obtain rfl := List.mem_singleton.mp member
  obtain rfl := Option.some.inj about
  exact Heap.lt_next live

theorem postIo_ledger {b b' : Base} (ledger : Ledger b.ioMem b.trace none) (result : postIo env b node li = some b') :
    Ledger b'.ioMem b'.trace none := by
  obtain ⟨n,io,r,cell,data,ioCell,_,cases⟩ := postIo_cases result
  have written := ledger.written ioCell node n.addr (encMsg b n r.msg)
  rcases cases with ⟨_,⟨q,_,rfl⟩ | moved⟩ | ⟨unacked,⟨done⟩⟩
  · exact written
  · obtain ⟨moved⟩ := moved
    rw [moved.final]
    apply written.modify io _
    intro r' live
    obtain rfl := Option.some.inj (ioCell.symm.trans live)
    exact ⟨rfl,rfl,rfl,rfl⟩
  · rw [done.final]
    refine finished_ledger (b := b.emit (.written node io n.addr (encMsg b n r.msg))) written ioCell
      ⟨rfl,rfl,rfl,rfl⟩ ?_ done.called
    intro p r' posted
    have unacked' : r'.waits = false := by
      rw [BanoIo.waits,← (written.live p io r' posted r ioCell).2.1]
      exact unacked
    exact .inr (.inr ⟨unacked',written.set p io r' posted unacked',node,n.addr,encMsg b n r.msg,by simp [Base.emit]⟩)

theorem answer_ledger {b b' : Base} (ledger : Ledger b.ioMem b.trace none) (answer : Answer b node n msg io b') :
    Ledger b'.ioMem b'.trace none := by
  have answered : Ledger b.ioMem (b.trace ++ [.answered io msg]) none := by
    apply ledger.passive (by simp [Event.passive])
    intro e member i about
    obtain rfl := List.mem_singleton.mp member
    obtain rfl := Option.some.inj about
    exact Heap.lt_next answer.cell
  have keeps : (answerIo msg answer.r).complFn = answer.r.complFn ∧ (answerIo msg answer.r).flags = answer.r.flags ∧
      (answerIo msg answer.r).msg = answer.r.msg ∧ (answerIo msg answer.r).node = answer.r.node := by
    unfold answerIo
    split <;> exact ⟨rfl,rfl,rfl,rfl⟩
  have final := (banoFreeIo_cases answer.final).1
  have finished := finished_ledger (b := (b.setNode node { n with pendingIos := answer.pending }).emit
    (.answered io msg))
    answered answer.cell keeps (fun _ _ _ => .inr (.inl ⟨msg,by simp [Base.emit,Base.setNode]⟩)) answer.called
  have ioMem : b'.ioMem = answer.mid.ioMem.erase io := (congrArg Base.ioMem final).trans rfl
  have trace : b'.trace = answer.mid.trace ++ [.released io] := (congrArg Base.trace final).trans rfl
  rw [ioMem,trace]
  exact finished

theorem passive_ledger {b b' : Base} (ledger : Ledger b.ioMem b.trace none)
    (passive : ∀ e ∈ es, Event.passive e = true)
    (about : ∀ e ∈ es, Event.io e = none) (result : runPosts posts { b with trace := b.trace ++ es } = some b') :
    Ledger b'.ioMem b'.trace none := by
  refine runPosts_ledger (ledger.passive passive ?_) result
  intro e member io same
  simp [about e member] at same

theorem handleSetMsg_ledger {b b' : Base} (ledger : Ledger b.ioMem b.trace none)
    (result : handleSetMsg linfo env b msg node = some b') : Ledger b'.ioMem b'.trace none := by
  obtain ⟨n,cell,cases⟩ := handleSetMsg_cases result
  have added : Ledger (addPair env b node n msg).ioMem (addPair env b node n msg).trace none := by
    rw [addPair_eq cell]
    refine ledger.passive ?_ ?_
    · intro e member
      split at member
      · obtain rfl := List.mem_singleton.mp member
        rfl
      · simp at member
    · intro e member io about
      split at member
      · obtain rfl := List.mem_singleton.mp member
        simp [Event.io] at about
      · simp at member
  rcases cases with ⟨posts,es,called,rfl | rfl,_⟩ | ⟨_,⟨_,rfl⟩ | ⟨m,io,_,⟨answer⟩⟩⟩
  · exact passive_ledger added (by simp) (by simp) called
  · exact passive_ledger added (by simp [Event.passive]) (by simp [Event.io]) called
  · exact added
  · exact answer_ledger added answer

theorem dispatch_ledger {b b' : Base} (ledger : Ledger b.ioMem b.trace none)
    (result : dispatch linfo env b msg node = some b') : Ledger b'.ioMem b'.trace none := by
  rcases dispatch_cases result with ⟨_,handled⟩ | ⟨_,posts,es,called,rfl | ⟨_,rfl⟩⟩
  · exact handleSetMsg_ledger ledger handled
  · exact passive_ledger ledger (by simp) (by simp) called
  · exact passive_ledger ledger (by simp [Event.passive]) (by simp [Event.io]) called

theorem handleBanoMsg_ledger {b b' : Base} (ledger : Ledger b.ioMem b.trace none)
    (result : handleBanoMsg linfo env b socket msg = some (err,b')) : Ledger b'.ioMem b'.trace none := by
  rcases handleBanoMsg_cases result with rfl | ⟨node,_,handled⟩ | ⟨nodes,mid,posts,es,_,called,shape,handled⟩
  · exact ledger
  · exact dispatch_ledger ledger handled
  · refine dispatch_ledger ?_ handled
    rcases shape with rfl | rfl
    · exact runPosts_ledger (by simpa using ledger) called
    · refine runPosts_ledger (ledger.passive (by simp [Event.passive]) ?_) called
      simp [Event.io]

theorem expirePending_ledger {b b' : Base} (ledger : Ledger b.ioMem b.trace none)
    (result : expirePending env b t = some b') : Ledger b'.ioMem b'.trace none := by
  obtain ⟨expiry⟩ := expirePending_cases result
  have cell : (b.setIo expiry.io (expiring expiry.r)).ioMem.cell expiry.io = some (expiring expiry.r) := by
    simp [Base.setIo,expiry.ioCell]
  have start : Ledger (b.setIo expiry.io (expiring expiry.r)).ioMem
      (b.setIo expiry.io (expiring expiry.r)).trace none := by
    apply ledger.modify expiry.io _
    intro r live
    obtain rfl := Option.some.inj (expiry.ioCell.symm.trans live)
    exact ⟨rfl,rfl,rfl,rfl⟩
  have done : Ledger expiry.mid.ioMem expiry.mid.trace none := by
    rcases expireIo_cases cell expiry.expired with ⟨_,posts,mid,called,final⟩ | ⟨_,dest,d,posted,_,_,_,final⟩
    · rw [final]
      exact finished_ledger start cell ⟨rfl,rfl,rfl,rfl⟩ (fun _ _ _ => .inl (show ioErrTimeout ≠ 0 by decide)) called
    · rw [final]
      exact start
  have ioMem : b'.ioMem = expiry.mid.ioMem := (congrArg Base.ioMem expiry.final).trans rfl
  have trace : b'.trace = expiry.mid.trace := (congrArg Base.trace expiry.final).trans rfl
  rw [ioMem,trace]
  exact done

theorem selectTimer_ledger (ledger : Ledger s.base.ioMem s.base.trace none)
    (result : selectTimer ready tv env s = some s') : Ledger s'.base.ioMem s'.base.trace none := by
  rcases selectTimer_cases result with rfl | ⟨t,_,timers,_,_,rfl | ⟨_,b,expired,rfl⟩ | ⟨_,b,q,called,_,rfl⟩⟩
  · exact ledger
  · exact ledger
  · exact expirePending_ledger (b := { s.base with timers := timers }) ledger expired
  · have quiet : ∀ e ∈ [Event.timerFn], e.passive = true := by simp [Event.passive]
    have ledger' : Ledger b.ioMem b.trace none :=
      passive_ledger (b := { s.base with timers := timers }) ledger quiet (by simp [Event.io]) called
    exact ledger'

/-- No listed node has an io whose completion function anyone waits for. -/
def Unawaited (b : Base) : Prop :=
  ∀ e ∈ b.nodes.entries, ∀ n, b.nodeMem.cell e.2 = some n → ∀ io ∈ listedIos n,
    ∀ r, b.ioMem.cell io = some r → r.complFn = none

theorem freeNodeItems_ledger {b b' : Base} (ledger : Ledger b.ioMem b.trace none) (unawaited : Unawaited b)
    (result : freeNodeItems b.nodes.entries b = some b') : Ledger b'.ioMem b'.trace none := by
  obtain ⟨ios,gone,origin⟩ := freeNodeItems_released result
  have trace : b'.trace = b.trace ++ ios.map .released := by rw [gone.same]
  rw [trace]
  refine ledger.discard (fun io member => ?_) gone.apart gone.io (Nat.le_of_eq gone.ioNext.symm)
  obtain ⟨r,cell⟩ := gone.live io member
  obtain ⟨e,listed,n,live,inside⟩ := origin io member
  exact ⟨r,cell,unawaited e listed n live io inside r cell⟩

theorem readMsg_ledger {b b' : Base} (ledger : Ledger b.ioMem b.trace none)
    (unawaited : (∃ m, outcome = .msg m) ∨ Unawaited b) (result : readMsg linfo env b li outcome = some b') :
    Ledger b'.ioMem b'.trace none := by
  obtain ⟨socket,_,result⟩ := Option.bind_eq_some_iff.mp result
  obtain ⟨s,_,result⟩ := Option.bind_eq_some_iff.mp result
  cases outcome with
  | again => exact (Option.some.inj result) ▸ ledger
  | error =>
    obtain ⟨mid,freed,result⟩ := Option.bind_eq_some_iff.mp result
    obtain ⟨sockets,_,rfl⟩ := bind_some.mp result
    obtain ⟨mid',nodes,same⟩ := Option.bind_eq_some_iff.mp freed
    obtain ⟨socketMem,_,rfl⟩ := bind_some.mp same
    have freed : Ledger mid'.ioMem mid'.trace none :=
      freeNodeItems_ledger ledger (unawaited.resolve_left (by simp)) nodes
    exact freed
  | msg m =>
    simp only at result
    split at result
    · obtain ⟨⟨err,mid⟩,handled,same⟩ := Option.bind_eq_some_iff.mp result
      obtain rfl := Option.some.inj same
      exact handleBanoMsg_ledger ledger handled
    · exact (Option.some.inj result) ▸ ledger

/-- Once no node is listed, freeing a socket releases no io. -/
theorem freeSocketItems_ios {b b' : Base} (none : b.nodes.entries = []) (result : freeSocketItems es b = some b') :
    b'.ioMem = b.ioMem ∧ b'.trace = b.trace := by
  induction es generalizing b with
  | nil =>
    obtain rfl := Option.some.inj result
    exact ⟨rfl,rfl⟩
  | cons e es ih =>
    obtain ⟨mid,freed,rest⟩ := Option.bind_eq_some_iff.mp result
    rw [banoSocketFree,none] at freed
    obtain ⟨socketMem,_,rfl⟩ := bind_some.mp freed
    exact ih (b := { b with socketMem := socketMem }) none rest

theorem banoClose_ledger {b b' : Base} (ledger : Ledger b.ioMem b.trace none) (unawaited : Unawaited b)
    (result : banoClose b = some b') : Ledger b'.ioMem b'.trace none := by
  obtain ⟨timers,_,result⟩ := Option.bind_eq_some_iff.mp result
  obtain ⟨mid,nodes,result⟩ := Option.bind_eq_some_iff.mp result
  obtain ⟨mid',sockets,rfl⟩ := bind_some.mp result
  obtain ⟨ioMem,trace⟩ := freeSocketItems_ios (b := { mid with nodes := .empty }) rfl sockets
  have freed := freeNodeItems_ledger (b := { b with timers := timers }) ledger unawaited nodes
  show Ledger mid'.ioMem mid'.trace none
  rw [ioMem,trace]
  exact freed

/-- Where whole nodes are released, no one waits for their ios. -/
def Label.Unawaited : Label → Loop → Prop
  | .read _ _ .error, s => Bano.Unawaited s.base
  | .close, s => Bano.Unawaited s.base
  | _, _ => True

theorem idleStep_ledger (ledger : Ledger s.base.ioMem s.base.trace none) (unawaited : label.Unawaited s)
    (taken : Loop.idleStep linfo label s = some s') : Ledger s'.base.ioMem s'.base.trace none := by
  cases label with
  | newNode li posts =>
    obtain ⟨b,called,rfl⟩ := bind_some.mp taken
    obtain ⟨node,_,called⟩ := Option.bind_eq_some_iff.mp called
    split at called
    · have quiet : ∀ e ∈ [Event.newNode node], e.passive = true := by simp [Event.passive]
      have ledger' : Ledger b.ioMem b.trace none := passive_ledger ledger quiet (by simp [Event.io]) called
      exact ledger'
    · exact (Option.some.inj called) ▸ ledger
  | post p =>
    obtain ⟨b,posted,rfl⟩ := bind_some.mp taken
    have called : runPosts [p] s.base = some b := by simp [runPosts,posted]
    exact runPosts_ledger ledger called
  | addTimer mallocTimer mallocItem =>
    simp only [Loop.idleStep] at taken
    split at taken
    · obtain ⟨⟨timer,timers⟩,_,taken⟩ := Option.bind_eq_some_iff.mp taken
      simp only at taken
      split at taken <;> exact (Option.some.inj taken) ▸ ledger
    · exact (Option.some.inj taken) ▸ ledger
  | peek li env msg =>
    obtain ⟨b,handled,rfl⟩ := bind_some.mp taken
    exact readMsg_ledger ledger (.inl ⟨msg,rfl⟩) handled
  | read li env outcome =>
    obtain ⟨b,handled,rfl⟩ := bind_some.mp taken
    cases outcome with
    | again =>
      obtain ⟨_,_,handled⟩ := Option.bind_eq_some_iff.mp handled
      obtain ⟨_,_,handled⟩ := Option.bind_eq_some_iff.mp handled
      exact (Option.some.inj handled) ▸ ledger
    | error => exact readMsg_ledger ledger (.inr unawaited) handled
    | msg m => exact readMsg_ledger ledger (.inl ⟨m,rfl⟩) handled
  | write li =>
    obtain ⟨node,_,taken⟩ := Option.bind_eq_some_iff.mp taken
    obtain ⟨n,_,rfl⟩ := bind_some.mp taken
    exact ledger
  | postIo env => simp [Loop.idleStep] at taken
  | select ready tv env => exact selectTimer_ledger ledger taken
  | selectFails => exact (Option.some.inj taken) ▸ ledger
  | close =>
    obtain ⟨b,closed,rfl⟩ := bind_some.mp taken
    exact banoClose_ledger ledger unawaited closed

theorem step_ledger (ledger : Ledger s.base.ioMem s.base.trace none) (unawaited : label.Unawaited s)
    (taken : Loop.step linfo label s = some s') : Ledger s'.base.ioMem s'.base.trace none := by
  unfold Loop.step at taken
  split at taken
  · exact idleStep_ledger ledger unawaited taken
  · obtain ⟨n,_,taken⟩ := Option.bind_eq_some_iff.mp taken
    obtain ⟨next,_,taken⟩ := Option.bind_eq_some_iff.mp taken
    obtain ⟨b,written,rfl⟩ := bind_some.mp taken
    exact postIo_ledger ledger written
  · obtain ⟨b,closed,rfl⟩ := bind_some.mp taken
    exact banoClose_ledger ledger unawaited closed
  · simp at taken

theorem Idle.ledger {b : Base} (idle : Idle b) : Ledger b.ioMem b.trace none := by
  rw [idle.ioMem,idle.trace]
  constructor <;> simp

theorem reach_ledger (idle : Idle b) (reach : Reach (Loop.step linfo) Label.Unawaited ⟨b,none,.idle⟩ labels s) :
    Ledger s.base.ioMem s.base.trace none :=
  reach.invariant (fun s => Ledger s.base.ioMem s.base.trace none) idle.ledger
    fun _ _ _ ledger unawaited taken => step_ledger ledger unawaited taken

theorem dropped_never (idle : Idle b)
    (reach : Reach (Loop.step linfo) Label.Unawaited ⟨b,none,.idle⟩ labels s)
    (accepted : .posted node io r ∈ s.base.trace) (fn : r.complFn.isSome) : Kept s.base.trace io r :=
  (reach_ledger idle reach).kept node io r accepted fn

/-- A SET that waits for no reply is posted and written. -/
def setPost : Post := ⟨.set junkIo 1 7 false (some 0),0,true⟩

def setRun : List Label := [.post setPost,.write 0,.postIo bareWrite]

theorem dropped_never_set : ∃ s, run (Loop.step bareLoop) setRun ⟨twoSockets,none,.idle⟩ = some s ∧
    .released 0 ∈ s.base.trace ∧ Kept s.base.trace 0 { setPost.request.io with node := some 0 } := by
  obtain ⟨s,ran,trace⟩ : ∃ s, run (Loop.step bareLoop) setRun ⟨twoSockets,none,.idle⟩ = some s ∧
      s.base.trace = [.posted 0 0 { setPost.request.io with node := some 0 },
        .written 0 0 0xa5a5a5a5 ⟨msgOpSet,0,0,0,0,1,7⟩,.completed 0 0 0,.released 0] :=
    Option.map_eq_some_iff.mp rfl
  have reach : Reach (Loop.step bareLoop) Label.Unawaited ⟨twoSockets,none,.idle⟩ setRun s := by
    refine Reach.of_run (fun label member s => ?_) ran
    simp only [setRun,List.mem_cons,List.not_mem_nil,or_false] at member
    rcases member with rfl | rfl | rfl <;> exact trivial
  exact ⟨s,ran,by simp [trace],dropped_never twoSockets_idle reach (by rw [trace]; exact List.mem_cons_self) rfl⟩

/-- A GET is posted, and the base is closed. -/
def closeRun : List Label := [.post ⟨.get junkIo 1 (some 0),0,true⟩,.close]

theorem close_drops : ¬∀ linfo b labels s, Idle b → run (Loop.step linfo) labels ⟨b,none,.idle⟩ = some s →
    ∀ node io r, .posted node io r ∈ s.base.trace → r.complFn.isSome → Kept s.base.trace io r := by
  intro allKept
  obtain ⟨s,ran,trace⟩ : ∃ s, run (Loop.step bareLoop) closeRun ⟨twoSockets,none,.idle⟩ = some s ∧
      s.base.trace = [.posted 0 0 { (Request.get junkIo 1 (some 0)).io with node := some 0 },.released 0] :=
    Option.map_eq_some_iff.mp rfl
  have kept := allKept bareLoop twoSockets closeRun s twoSockets_idle ran 0 0 _
    (by rw [trace]; exact List.mem_cons_self) rfl
  rw [trace] at kept
  have once := (kept [_] [] rfl).1
  simp [completions,Event.completes] at once

end Bano
