import Bano.Carried
import Bano.Sockets

/-! How far a traversal of the posted ios has to go. The callbacks that it calls may post to the very
node that it is at, behind its position; each io that they post uses up one more pointer. -/
namespace Bano

open Lib

/-- How many items a traversal has before it. -/
def LinkedList.ahead (l : LinkedList α) : Option Ptr → Nat
  | none => 0
  | some it => (l.entries.dropWhile fun e => e.1 ≠ it).length

theorem LinkedList.ahead_eq {l : LinkedList α} (split : l.entries = before ++ rest) :
    l.ahead (first rest none) = rest.length := by
  cases rest with
  | nil => rfl
  | cons e rest =>
    have nodup := l.nodup
    rw [split,List.map_append,List.nodup_append] at nodup
    have passed : ∀ d ∈ before, decide (d.1 ≠ e.1) = true := by
      intro d member
      exact decide_eq_true (nodup.2.2 d.1 (List.mem_map_of_mem member) e.1 (by simp))
    rw [first_cons,ahead,split,List.dropWhile_append_of_pos passed]
    simp

/-- The next item is nearer to the end. -/
theorem LinkedList.next_ahead {l : LinkedList α} (listed : (it,a) ∈ l.entries) (next : l.next it = some after) :
    l.ahead after < l.ahead (some it) := by
  obtain ⟨before,rest,split⟩ := List.append_of_mem listed
  obtain rfl := Option.some.inj ((LinkedList.next_eq split).symm.trans next)
  have here : l.ahead (some it) = rest.length + 1 := LinkedList.ahead_eq split
  have later : l.entries = (before ++ [(it,a)]) ++ rest := by rw [split,List.append_assoc]; rfl
  rw [here,LinkedList.ahead_eq later]
  exact Nat.lt_succ_self _

theorem LinkedList.del_split {l l' : LinkedList α} (removed : l.del it = some l')
    (split : l.entries = before ++ (it,a) :: rest) :
    l'.entries = before ++ rest := by
  have nodup := l.nodup
  rw [split,List.map_append,List.nodup_append,List.map_cons,List.nodup_cons] at nodup
  have early : ∀ e ∈ before, decide (e.1 ≠ it) = true := fun e member =>
    decide_eq_true (nodup.2.2 e.1 (List.mem_map_of_mem member) it (by simp))
  have late : ∀ e ∈ rest, decide (e.1 ≠ it) = true := by
    intro e member
    exact decide_eq_true fun same => nodup.2.1.1 (List.mem_map.mpr ⟨e,member,same⟩)
  rw [(LinkedList.del_eq_some removed).1,split,List.filter_append,List.filter_cons_of_neg (by simp),
    List.filter_eq_self.mpr early,
    List.filter_eq_self.mpr late]

theorem postNew_room (result : postNew b p = some b') : b'.ioMem.next = b.ioMem.next + 1 ∧
    ∀ q n, b.nodeMem.cell q = some n → ∃ n' new, b'.nodeMem.cell q = some n' ∧
      n'.postedIos.entries = n.postedIos.entries ++ new ∧ new.length ≤ 1 := by
  rcases postNew_cases result with rfl | ⟨m,posted,cell,entries,_,rfl⟩
  · exact ⟨rfl,fun q n cell => ⟨n,[],cell,by simp,by simp⟩⟩
  · refine ⟨rfl,fun q n cell' => ?_⟩
    by_cases here : q = p.node
    · subst here
      obtain rfl := Option.some.inj (cell.symm.trans cell')
      exact ⟨{ m with postedIos := posted },_,by simp [accepted,cell],entries,by simp⟩
    · exact ⟨n,[],by simp [accepted,here,cell'],by simp,by simp⟩

/-- A callback uses one pointer for each io, and appends no more ios than that to a list. -/
theorem runPosts_room (result : runPosts posts b = some b') : b'.ioMem.next = b.ioMem.next + posts.length ∧
    ∀ q n, b.nodeMem.cell q = some n → ∃ n' new, b'.nodeMem.cell q = some n' ∧
      n'.postedIos.entries = n.postedIos.entries ++ new ∧ new.length ≤ posts.length := by
  induction posts generalizing b with
  | nil =>
    obtain rfl := Option.some.inj result
    exact ⟨rfl,fun q n cell => ⟨n,[],cell,by simp,by simp⟩⟩
  | cons p posts ih =>
    obtain ⟨mid,posted,rest⟩ := Option.bind_eq_some_iff.mp result
    obtain ⟨next,one⟩ := postNew_room posted
    obtain ⟨next',others⟩ := ih rest
    refine ⟨by rw [next',next,List.length_cons]; omega,fun q n cell => ?_⟩
    obtain ⟨n',new,cell',entries,few⟩ := one q n cell
    obtain ⟨n'',new',cell'',entries',few'⟩ := others q n' cell'
    refine ⟨n'',new ++ new',cell'',by rw [entries',entries,List.append_assoc],?_⟩
    rw [List.length_append,List.length_cons]
    omega

theorem completed_next (b : Base) (io : Ptr) (r : BanoIo) (f : BanoIo → BanoIo) :
    (completed b io r f).ioMem.next = b.ioMem.next := by
  unfold completed
  split <;> rfl

theorem completeIo_next (result : completeIo b io r f posts = some b') :
    b'.ioMem.next = b.ioMem.next ∨ b'.ioMem.next = b.ioMem.next + posts.length := by
  unfold completeIo at result
  split at result
  · obtain ⟨_,_,called⟩ := Option.bind_eq_some_iff.mp result
    exact .inr (runPosts_room called).1
  · obtain rfl := Option.some.inj result
    exact .inl rfl

theorem postIo_next (result : postIo env b node it = some b') :
    b'.ioMem.next = b.ioMem.next ∨ b'.ioMem.next = b.ioMem.next + env.posts.length := by
  obtain ⟨n,_,result⟩ := Option.bind_eq_some_iff.mp result
  obtain ⟨io,_,result⟩ := Option.bind_eq_some_iff.mp result
  obtain ⟨r,_,result⟩ := Option.bind_eq_some_iff.mp result
  split at result
  · obtain ⟨_,_,result⟩ := Option.bind_eq_some_iff.mp result
    cases result
  split at result
  · obtain ⟨⟨timer,q⟩,_,result⟩ := Option.bind_eq_some_iff.mp result
    cases timer with
    | none =>
      obtain rfl := Option.some.inj result
      exact .inl rfl
    | some t =>
      obtain ⟨_,_,result⟩ := Option.bind_eq_some_iff.mp result
      obtain ⟨_,_,result⟩ := Option.bind_eq_some_iff.mp result
      obtain rfl := Option.some.inj result
      exact .inl rfl
  · obtain ⟨mid,called,result⟩ := Option.bind_eq_some_iff.mp result
    obtain ⟨after,freed,result⟩ := Option.bind_eq_some_iff.mp result
    obtain ⟨rfl,_⟩ := banoFreeIo_cases freed
    obtain ⟨_,_,result⟩ := Option.bind_eq_some_iff.mp result
    obtain ⟨_,_,result⟩ := Option.bind_eq_some_iff.mp result
    obtain rfl := Option.some.inj result
    have next := completeIo_next called
    exact next

/-- The items after the one that is written stay, and are followed by what the callback posts. -/
theorem postIo_posted (result : postIo env b node it = some b') (cell : b.nodeMem.cell node = some n)
    (split : n.postedIos.entries = before ++ (it,io) :: rest) : ∃ n' before' new, b'.nodeMem.cell node = some n' ∧
      n'.postedIos.entries = before' ++ (rest ++ new) ∧ b.ioMem.next + new.length ≤ b'.ioMem.next := by
  obtain ⟨n',io',r,cell',_,_,_,⟨_,⟨q,_,rfl⟩ | ⟨⟨moved⟩⟩⟩ | ⟨_,⟨done⟩⟩⟩ := postIo_cases result
  · obtain rfl := Option.some.inj (cell.symm.trans cell')
    refine ⟨_,before ++ [(it,io)],[],by simp [Base.setNode,Base.emit,cell]; rfl,?_,Nat.le_refl _⟩
    simp [split]
  · obtain rfl := Option.some.inj (cell.symm.trans cell')
    rw [moved.final]
    refine ⟨{ n with postedIos := moved.posted, pendingIos := (n.pendingIos.addTail env.mallocPending io').2 },
      before,[],?_,?_,
      Nat.le_refl _⟩
    · simp [Base.emit,cell]
    · simpa using LinkedList.del_split moved.removed split
  · obtain rfl := Option.some.inj (cell.symm.trans cell')
    obtain ⟨posts,mid,m,posted,called,cellM,removed,rfl⟩ := done
    obtain ⟨next,grown⟩ := runPosts_room called
    obtain ⟨m',new,cellM',entries,few⟩ := grown node n (by rw [completed_nodeMem]; exact cell)
    obtain rfl := Option.some.inj (cellM.symm.trans cellM')
    refine ⟨{ m with postedIos := posted },before,new,by simp [Base.setNode,released,cellM],?_,?_⟩
    · rw [split,List.append_assoc,List.cons_append] at entries
      exact LinkedList.del_split removed entries
    · show b.ioMem.next + new.length ≤ mid.ioMem.next
      rw [completed_next] at next
      exact next ▸ Nat.add_le_add_left few _

end Bano
