import Bano.Iteration
import Bano.Steps

/-! write_msg as such a traversal: post_io deletes the item it gets from the posted ios of the node,
unless its timer is refused, and the completion function it calls may append others. -/
namespace Bano

open Lib

theorem appendAll_append {l : BanoList α} (one : appendAll as l = some (es,l'))
    (other : appendAll bs l' = some (fs,l'')) :
    appendAll (as ++ bs) l = some (es ++ fs,l'') := by
  induction as generalizing l es with
  | nil =>
    obtain ⟨rfl,rfl⟩ := Prod.mk.inj (Option.some.inj one)
    exact other
  | cons first as ih =>
    simp only [appendAll,Option.bind_eq_bind,Option.bind_eq_some_iff] at one
    obtain ⟨⟨err,l₁⟩,added,⟨es₁,l₂⟩,later,same⟩ := one
    obtain ⟨rfl,rfl⟩ := Prod.mk.inj (Option.some.inj same)
    have rest := ih later
    by_cases worked : err = 0
    · simp [appendAll,added,rest,worked]
    · simp [appendAll,added,rest,worked]

/-- The posted ios of the node go from one list to the other by appending. -/
def Appends (b b' : Base) (node : Ptr) : Prop := ∀ n, b.nodeMem.cell node = some n →
  ∃ as es n', b'.nodeMem.cell node = some n' ∧ appendAll as n.postedIos.list = some (es,n'.postedIos.list)

theorem Appends.of_same {b b' : Base} (same : b'.nodeMem.cell node = b.nodeMem.cell node) : Appends b b' node :=
  fun n cell => ⟨[],[],n,same.trans cell,rfl⟩

theorem Appends.trans (one : Appends a b node) (other : Appends b c node) : Appends a c node := by
  intro n cell
  obtain ⟨as,es,n',cell',appends⟩ := one n cell
  obtain ⟨bs,fs,n'',cell'',appends'⟩ := other n' cell'
  exact ⟨as ++ bs,es ++ fs,n'',cell'',appendAll_append appends appends'⟩

theorem postNew_appends (result : postNew b p = some b') (node : Ptr) : Appends b b' node := by
  intro n cell
  cases target : b.nodeMem.cell p.node with
  | none => simp [postNew,banoPostIo,target] at result
  | some d =>
    have added := d.postedIos.addTail_eq p.malloc b.ioMem.next
    rcases d.postedIos.addTail_cases p.malloc b.ioMem.next with failed | ⟨posted,worked,_⟩
    · simp only [postNew,banoPostIo,target,failed,Option.bind_eq_bind,Option.bind_some] at result
      obtain rfl : _ = b' := by simpa using result
      exact ⟨[],[],n,cell,rfl⟩
    · simp only [postNew,banoPostIo,target,worked,Option.bind_eq_bind,Option.bind_some,ne_eq,not_true,if_false,
        Heap.alloc_cell_next,if_true,Option.some.injEq] at result
      subst result
      rw [worked] at added
      by_cases own : node = p.node
      · subst own
        obtain rfl := Option.some.inj (cell.symm.trans target)
        refine ⟨[(p.malloc,b.ioMem.next)],[(n.postedIos.list.items.next,b.ioMem.next)],
          { n with postedIos := posted },?_,?_⟩
        · simp [Base.emit,Base.setIo,Base.setNode,cell]
        · simp [appendAll,added]
      · exact ⟨[],[],n,by simp [Base.emit,Base.setIo,Base.setNode,own,cell],rfl⟩

theorem runPosts_appends (result : runPosts posts b = some b') (node : Ptr) : Appends b b' node :=
  runPosts_induct (fun _ _ _ appends posted => Appends.trans appends (postNew_appends posted node))
    result (.of_same rfl)

theorem LinkedList.del_list {l l' : LinkedList α} (removed : l.del it = some l') :
    (banoListDel l.list it).map Prod.snd = some l'.list := by
  rw [LinkedList.del_eq,removed]
  rfl

/-- What post_io does to the list it is called from. -/
theorem postIo_doing (result : postIo env b node li = some b') (cell : b.nodeMem.cell node = some n) :
    ∃ doing es n', b'.nodeMem.cell node = some n' ∧ Doing.perform doing li n.postedIos.list =
      some (es,n'.postedIos.list) := by
  obtain ⟨n₀,io,r,cell₀,_,_,_,cases'⟩ := postIo_cases result
  obtain rfl := Option.some.inj (cell.symm.trans cell₀)
  rcases cases' with ⟨_,⟨q,_,rfl⟩ | ⟨moved⟩⟩ | ⟨_,⟨finished⟩⟩
  · refine ⟨⟨[],false,[]⟩,[],{ n with pendingIos := (n.pendingIos.addTail env.mallocPending io).2 },?_,rfl⟩
    simp [Base.emit,Base.setNode,cell]
  · obtain ⟨t,q,timers,posted,_,_,removed,rfl⟩ := moved
    refine ⟨⟨[],true,[]⟩,[],
      { n with postedIos := posted, pendingIos := (n.pendingIos.addTail env.mallocPending io).2 },?_,?_⟩
    · simp [Base.emit,cell]
    · simp [Doing.perform,Doing.delete,appendAll,LinkedList.del_list removed]
  · obtain ⟨posts,mid,m,posted,called,cellMid,removed,rfl⟩ := finished
    obtain ⟨as,es,m',cell',appends⟩ := runPosts_appends called node n (by rw [completed_nodeMem]; exact cell)
    obtain rfl := Option.some.inj (cellMid.symm.trans cell')
    refine ⟨⟨as,true,[]⟩,es,{ m with postedIos := posted },?_,?_⟩
    · simp [released,Base.setNode,cellMid]
    · simp [Doing.perform,Doing.delete,appendAll,appends,LinkedList.del_list removed]

/-- A step of the event loop in write_msg is a turn of the traversal. -/
theorem writing_turn (taken : Loop.step linfo (.postIo env) s = some s') (writing : s.control = .writing node it)
    (cell : s.base.nodeMem.cell node = some n) :
    ∃ doing es n' next, s'.base.nodeMem.cell node = some n' ∧ s'.control = cursor node next ∧
      Changing.foreachTurn (callback fun _ _ (_ : Unit) => (doing,())) (some it,n.postedIos.list,(),[]) =
        .done (.next (next,n'.postedIos.list,(),[⟨it,es,doing.deletes⟩])) := by
  obtain ⟨base,loopTimer,control⟩ := s
  obtain rfl : control = _ := writing
  simp only [Loop.step,Option.bind_eq_bind,Option.bind_eq_some_iff] at taken
  obtain ⟨n₀,cell₀,next,found,b',wrote,same⟩ := taken
  obtain rfl := Option.some.inj (cell.symm.trans cell₀)
  obtain ⟨doing,es,n',cell',performs⟩ := postIo_doing wrote cell
  obtain rfl := Option.some.inj same
  obtain ⟨k,live,rfl⟩ := Option.map_eq_some_iff.mp found
  exact ⟨doing,es,n',k.next,cell',rfl,by simp [Changing.foreachTurn,callback,live,performs]⟩

end Bano
