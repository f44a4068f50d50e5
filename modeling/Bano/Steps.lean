import Bano.Frames
import Bano.Loop
import Bano.TimerTail

/-! What writing an io, and the expiry of its timer, do to the base, case by case. -/
namespace Bano

open Lib

/-- An io that waits for a reply moves to the pending ios, under a new timer. -/
structure Moved (env : PostIoEnv) (b : Base) (node li : Ptr) (n : BanoNode) (io : Ptr) (r : BanoIo) (b' : Base) where
  t : Ptr
  q : TimerQueue
  timers : Heap BanoTimer
  posted : LinkedList Ptr
  added : banoTimerAdd env.mallocTimer env.mallocTimerItem b.timers r.retryMs = some (some t,q)
  stored : q.timers.update t (fun ti =>
    { ti with data := some (node,(n.pendingIos.addTail env.mallocPending io).2.list.tail) }) = some timers
  removed : n.postedIos.del li = some posted
  final : b' = { b with
    timers := ⟨q.list,timers⟩
    nodeMem := b.nodeMem.modify node fun _ =>
      { n with postedIos := posted, pendingIos := (n.pendingIos.addTail env.mallocPending io).2 }
    ioMem := b.ioMem.modify io fun _ => { r with timer := some t } }

/-- An io that waits for none completes and is released. -/
structure Done (b : Base) (node li io : Ptr) (r : BanoIo) (b' : Base) where
  posts : List Post
  mid : Base
  n : BanoNode
  posted : LinkedList Ptr
  called : runPosts posts (completed b io r writtenIo) = some mid
  cell : mid.nodeMem.cell node = some n
  removed : n.postedIos.del li = some posted
  final : b' = (released mid io).setNode node { n with postedIos := posted }

theorem modify_twice (h : Heap α) (p : Nat) (f g : α → α) : (h.modify p f).modify p g = h.modify p (g ∘ f) := by
  refine Heap.ext rfl fun q => ?_
  by_cases here : q = p
  · subst here
    simp
  · simp [here]

theorem postIo_cases (result : postIo env b node li = some b') :
    ∃ n io r, b.nodeMem.cell node = some n ∧ n.postedIos.data li = some io ∧ b.ioMem.cell io = some r ∧
      env.writeFails = false ∧
      (r.waits = true ∧ ((∃ q, banoTimerAdd env.mallocTimer env.mallocTimerItem b.timers r.retryMs = some (none,q) ∧
          b' = { (b.emit (.written node io n.addr (encMsg b n r.msg))).setNode node
            { n with pendingIos := (n.pendingIos.addTail env.mallocPending io).2 } with timers := q }) ∨
          Nonempty (Moved env (b.emit (.written node io n.addr (encMsg b n r.msg))) node li n io r b')) ∨
        r.waits = false ∧ Nonempty (Done (b.emit (.written node io n.addr (encMsg b n r.msg))) node li io r b')) := by
  obtain ⟨n,cell,result⟩ := Option.bind_eq_some_iff.mp result
  obtain ⟨io,data,result⟩ := Option.bind_eq_some_iff.mp result
  obtain ⟨r,ioCell,result⟩ := Option.bind_eq_some_iff.mp result
  by_cases fails : env.writeFails = true
  · simp [fails] at result
  rw [if_neg fails] at result
  refine ⟨n,io,r,cell,data,ioCell,by simpa using fails,?_⟩
  by_cases waits : r.waits = true
  · left
    simp only [waits,if_true] at result
    obtain ⟨⟨tip,q⟩,added,result⟩ := Option.bind_eq_some_iff.mp result
    refine ⟨waits,?_⟩
    cases tip with
    | none => exact .inl ⟨q,added,(Option.some.inj result).symm⟩
    | some t =>
      obtain ⟨timers,stored,result⟩ := Option.bind_eq_some_iff.mp result
      obtain ⟨posted,removed,result⟩ := Option.bind_eq_some_iff.mp result
      refine .inr ⟨⟨t,q,timers,posted,added,stored,removed,?_⟩⟩
      rw [← Option.some.inj result]
      simp only [Base.setNode,Base.setIo,Base.emit,modify_twice]
      rfl
  · right
    simp only [waits] at result
    obtain ⟨mid,called,result⟩ := Option.bind_eq_some_iff.mp result
    obtain ⟨after,freed,result⟩ := Option.bind_eq_some_iff.mp result
    obtain ⟨rfl,_⟩ := banoFreeIo_cases freed
    obtain ⟨m,cell',result⟩ := Option.bind_eq_some_iff.mp result
    obtain ⟨posted,removed,result⟩ := Option.bind_eq_some_iff.mp result
    have ioCell' : (b.emit (.written node io n.addr (encMsg b n r.msg))).ioMem.cell io = some r := ioCell
    obtain ⟨posts,called⟩ := complete_posts ioCell' called
    exact ⟨by simpa using waits,⟨⟨posts,mid,m,posted,called,cell',removed,(Option.some.inj result).symm⟩⟩⟩

/-- Either it completes and is released, or it is posted again. -/
theorem expireIo_cases {b : Base} (cell : b.ioMem.cell io = some (expiring r))
    (result : expireIo env b io r = some b') :
    ((r.retryCount = 0 ∨ env.mallocPosted = false) ∧ ∃ posts mid,
      runPosts posts (completed b io (expiring r) timeoutIo) = some mid ∧ b' = released mid io) ∨
    r.retryCount ≠ 0 ∧ ∃ dest d posted, r.node = some dest ∧ b.nodeMem.cell dest = some d ∧
      posted.entries = d.postedIos.entries ++ [(d.postedIos.nextItem,io)] ∧
      b' = b.setNode dest { d with postedIos := posted } := by
  unfold expireIo at result
  split at result
  · next last =>
    obtain ⟨mid,called,freed⟩ := Option.bind_eq_some_iff.mp result
    obtain ⟨posts,called⟩ := complete_posts (r := expiring r) cell called
    exact .inl ⟨.inl last,posts,mid,called,(banoFreeIo_cases freed).1⟩
  · next more =>
    obtain ⟨dest,own,result⟩ := Option.bind_eq_some_iff.mp result
    obtain ⟨d,live,result⟩ := Option.bind_eq_some_iff.mp result
    cases malloc : env.mallocPosted with
    | true =>
      obtain ⟨posted,added,entries,_⟩ := d.postedIos.addTail_true io
      rw [malloc] at result
      simp only [added,if_true] at result
      exact .inr ⟨more,dest,d,posted,own,live,entries,(Option.some.inj result).symm⟩
    | false =>
      rw [malloc] at result
      simp only [LinkedList.addTail_false] at result
      obtain ⟨fn,called,result⟩ := Option.bind_eq_some_iff.mp result
      obtain ⟨mid,completion,freed⟩ := Option.bind_eq_some_iff.mp result
      have whole : completeIo b io (expiring r) timeoutIo env.posts = some mid := by
        simpa [completeIo,expiring,called] using completion
      obtain ⟨posts,called⟩ := complete_posts cell whole
      exact .inl ⟨.inr rfl,posts,mid,called,(banoFreeIo_cases freed).1⟩

/-- The expiry of the timer of a pending io. -/
structure Expiry (env : TimeoutEnv) (b : Base) (t : Ptr) (b' : Base) where
  node : Ptr
  it : Ptr
  n : BanoNode
  io : Ptr
  r : BanoIo
  mid : Base
  n' : BanoNode
  pending : LinkedList Ptr
  timers : TimerQueue
  data : designated b.timers t = some (node,some it)
  cell : b.nodeMem.cell node = some n
  listed : (it,io) ∈ n.pendingIos.entries
  ioCell : b.ioMem.cell io = some r
  expired : expireIo env (b.setIo io (expiring r)) io r = some mid
  cell' : mid.nodeMem.cell node = some n'
  removed : n'.pendingIos.del it = some pending
  stopped : banoTimerDel mid.timers t = some timers
  final : b' = { mid.setNode node { n' with pendingIos := pending } with timers := timers }

theorem expirePending_cases (result : expirePending env b t = some b') : Nonempty (Expiry env b t b') := by
  obtain ⟨ti,live,result⟩ := Option.bind_eq_some_iff.mp result
  obtain ⟨⟨node,item⟩,data,result⟩ := Option.bind_eq_some_iff.mp result
  obtain ⟨it,same,found⟩ := Option.bind_eq_some_iff.mp result
  obtain rfl : item = some it := same
  obtain ⟨n,cell,result⟩ := Option.bind_eq_some_iff.mp found
  obtain ⟨io,listed,result⟩ := Option.bind_eq_some_iff.mp result
  obtain ⟨r,ioCell,result⟩ := Option.bind_eq_some_iff.mp result
  obtain ⟨mid,expired,result⟩ := Option.bind_eq_some_iff.mp result
  obtain ⟨n',cell',result⟩ := Option.bind_eq_some_iff.mp result
  obtain ⟨pending,removed,result⟩ := Option.bind_eq_some_iff.mp result
  obtain ⟨timers,stopped,result⟩ := Option.bind_eq_some_iff.mp result
  exact ⟨⟨node,it,n,io,r,mid,n',pending,timers,by simp [designated,live,data],cell,
    LinkedList.data_eq_some.mp listed,ioCell,expired,cell',removed,stopped,(Option.some.inj result).symm⟩⟩

theorem Expiry.result (expiry : Expiry env b t b') : expirePending env b t = some b' := by
  obtain ⟨node,it,n,io,r,mid,n',pending,timers,data,cell,listed,ioCell,expired,cell',removed,stopped,rfl⟩ := expiry
  obtain ⟨ti,live,data⟩ := Option.bind_eq_some_iff.mp data
  have found := LinkedList.data_eq_some.mpr listed
  simp [expirePending,live,data,cell,found,ioCell,expired,cell',removed,stopped]

theorem selectTimer_cases (result : selectTimer ready tv env s = some s') :
    s' = s ∨ ∃ t tv' timers, banoTimerGetNext s.base.timers = some (some (t,tv')) ∧
      banoTimerUpdate s.base.timers t tv = some timers ∧
      (s' = { s with base := { s.base with timers := timers } } ∨
        (s.loopTimer ≠ some t ∧ ∃ b, expirePending env { s.base with timers := timers } t = some b ∧
          s' = { s with base := b }) ∨
        s.loopTimer = some t ∧ ∃ b q, runPosts env.posts
          (Base.emit { s.base with timers := timers } .timerFn) = some b ∧
          banoTimerDel b.timers t = some q ∧ s' = { s with base := { b with timers := q }, loopTimer := none }) := by
  obtain ⟨head,next,result⟩ := Option.bind_eq_some_iff.mp result
  cases head with
  | none => exact .inl (Option.some.inj result).symm
  | some head =>
    obtain ⟨t,tv'⟩ := head
    obtain ⟨timers,updated,result⟩ := Option.bind_eq_some_iff.mp result
    obtain ⟨ti,live,result⟩ := Option.bind_eq_some_iff.mp result
    refine .inr ⟨t,tv',timers,next,updated,?_⟩
    split at result
    · exact .inl (Option.some.inj result).symm
    right
    split at result
    · next pending =>
      obtain ⟨b,expired,result⟩ := Option.bind_eq_some_iff.mp result
      exact .inl ⟨pending,b,expired,(Option.some.inj result).symm⟩
    · next loop =>
      obtain ⟨b,called,result⟩ := Option.bind_eq_some_iff.mp result
      obtain ⟨q,stopped,result⟩ := Option.bind_eq_some_iff.mp result
      exact .inr ⟨by simpa using loop,b,q,called,stopped,(Option.some.inj result).symm⟩

end Bano
