import Bano.Base

/-! What callbacks may do to the base: new ios are appended to the posted ios of some nodes. -/
namespace Bano

open Lib

/-- The base after its next io was accepted by bano_post_io. -/
def accepted (b : Base) (node : Ptr) (n : BanoNode) (posted : LinkedList Ptr) (r : BanoIo) : Base :=
  { b with
    nodeMem := b.nodeMem.modify node fun _ => { n with postedIos := posted }
    ioMem := b.ioMem.alloc { r with node := some node }
    trace := b.trace ++ [.posted node b.ioMem.next { r with node := some node }] }

theorem postNew_cases (result : postNew b p = some b') :
    b' = { b with ioMem := (b.ioMem.alloc p.request.io).erase b.ioMem.next } ∨
    ∃ n posted, b.nodeMem.cell p.node = some n ∧
      posted.entries = n.postedIos.entries ++ [(n.postedIos.nextItem,b.ioMem.next)] ∧
      posted.nextItem = n.postedIos.nextItem + 1 ∧ b' = accepted b p.node n posted p.request.io := by
  cases cell : b.nodeMem.cell p.node with
  | none => simp [postNew,banoPostIo,cell] at result
  | some n =>
    rcases n.postedIos.addTail_cases p.malloc b.ioMem.next with failed | ⟨posted,added,entries,next,_⟩
    · simp only [postNew,banoPostIo,cell,failed,Option.bind_eq_bind,Option.bind_some] at result
      exact .inl (by simpa [eq_comm] using result)
    · simp only [postNew,banoPostIo,cell,added,Option.bind_eq_bind,Option.bind_some,ne_eq,not_true,
        if_false,Heap.alloc_cell_next,if_true,Option.some.injEq] at result
      refine .inr ⟨n,posted,rfl,entries,next,?_⟩
      rw [← result]
      simp only [accepted,Base.emit,Base.setIo,Base.setNode,Heap.alloc_modify]

theorem postNew_some (cell : b.nodeMem.cell p.node = some n) : ∃ b', postNew b p = some b' := by
  rcases n.postedIos.addTail_cases p.malloc b.ioMem.next with failed | ⟨posted,added,_⟩
  · simp [postNew,banoPostIo,cell,failed]
  · simp [postNew,banoPostIo,cell,added]

/-- All that a base shows but its posted ios is as it was, and what it adds is new. -/
structure Grows (b b' : Base) : Prop where
  flags : b'.flags = b.flags
  cipher : b'.cipher = b.cipher
  nodls : b'.nodls = b.nodls
  nodes : b'.nodes = b.nodes
  sockets : b'.sockets = b.sockets
  timers : b'.timers = b.timers
  socketMem : b'.socketMem = b.socketMem
  nodeNext : b'.nodeMem.next = b.nodeMem.next
  node : ∀ p n, b.nodeMem.cell p = some n → ∃ n', b'.nodeMem.cell p = some n' ∧
    n' = { n with postedIos := n'.postedIos } ∧ n.postedIos.entries <+: n'.postedIos.entries
  gone : ∀ p, b.nodeMem.cell p = none → b'.nodeMem.cell p = none
  ioNext : b.ioMem.next ≤ b'.ioMem.next
  io : ∀ p, p < b.ioMem.next → b'.ioMem.cell p = b.ioMem.cell p
  trace : ∃ es, b'.trace = b.trace ++ es ∧ ∀ e ∈ es, ∃ node io r, e = .posted node io r ∧ b.ioMem.next ≤ io

theorem Grows.refl (b : Base) : Grows b b :=
  ⟨rfl,rfl,rfl,rfl,rfl,rfl,rfl,rfl,fun _ n cell => ⟨n,cell,rfl,List.prefix_rfl⟩,fun _ => id,Nat.le_refl _,
    fun _ _ => rfl,[],by simp,by simp⟩

theorem Grows.trans (one : Grows a b) (other : Grows b c) : Grows a c := by
  refine ⟨other.flags.trans one.flags,other.cipher.trans one.cipher,other.nodls.trans one.nodls,
    other.nodes.trans one.nodes,
    other.sockets.trans one.sockets,other.timers.trans one.timers,other.socketMem.trans one.socketMem,
    other.nodeNext.trans one.nodeNext,?_,fun p gone => other.gone p (one.gone p gone),
    Nat.le_trans one.ioNext other.ioNext,?_,?_⟩
  · intro p n cell
    obtain ⟨m,cell',same,shorter⟩ := one.node p n cell
    obtain ⟨k,cell'',same',longer⟩ := other.node p m cell'
    refine ⟨k,cell'',?_,shorter.trans longer⟩
    rw [same',same]
  · intro p old
    rw [other.io p (Nat.lt_of_lt_of_le old one.ioNext),one.io p old]
  · obtain ⟨es,first,new⟩ := one.trace
    obtain ⟨es',second,new'⟩ := other.trace
    refine ⟨es ++ es',by rw [second,first,List.append_assoc],fun e member => ?_⟩
    rcases List.mem_append.mp member with early | late
    · exact new e early
    · obtain ⟨node,io,r,rfl,fresh⟩ := new' e late
      exact ⟨node,io,r,rfl,Nat.le_trans one.ioNext fresh⟩

theorem postNew_grows (result : postNew b p = some b') : Grows b b' := by
  rcases postNew_cases result with rfl | ⟨n,posted,cell,entries,_,rfl⟩
  · refine ⟨rfl,rfl,rfl,rfl,rfl,rfl,rfl,rfl,fun _ n cell => ⟨n,cell,rfl,List.prefix_rfl⟩,fun _ => id,
      Nat.le_succ _,fun q _ => Heap.alloc_erase_cell _ _ q,[],by simp,by simp⟩
  · refine ⟨rfl,rfl,rfl,rfl,rfl,rfl,rfl,rfl,?_,?_,Nat.le_succ _,?_,?_⟩
    · intro q m live
      by_cases here : q = p.node
      · subst here
        obtain rfl := Option.some.inj (cell.symm.trans live)
        exact ⟨{ n with postedIos := posted },by simp [accepted,cell],rfl,by simp [entries]⟩
      · exact ⟨m,by simp [accepted,here,live],rfl,List.prefix_rfl⟩
    · intro q gone
      have other : q ≠ p.node := by
        rintro rfl
        simp [cell] at gone
      simp [accepted,other,gone]
    · intro q old
      exact Heap.alloc_cell_other (Nat.ne_of_lt old) _
    · exact ⟨_,rfl,fun e member => ⟨_,_,_,List.mem_singleton.mp member,Nat.le_refl _⟩⟩

/-- A fact about the base that each accepted io preserves is preserved by a callback. -/
theorem runPosts_induct {P : Base → Prop} (step : ∀ b p b', P b → postNew b p = some b' → P b')
    (result : runPosts posts b = some b') (holds : P b) : P b' := by
  induction posts generalizing b with
  | nil => exact (Option.some.inj result) ▸ holds
  | cons p posts ih =>
    obtain ⟨mid,first,rest⟩ := Option.bind_eq_some_iff.mp result
    exact ih rest (step _ _ _ holds first)

theorem runPosts_grows (result : runPosts posts b = some b') : Grows b b' :=
  runPosts_induct (fun _ _ _ grows posted => grows.trans (postNew_grows posted)) result (Grows.refl b)

/-- Callbacks post to nodes that exist. -/
def PostsTo (b : Base) (posts : List Post) : Prop := ∀ p ∈ posts, ∃ n, b.nodeMem.cell p.node = some n

theorem PostsTo.grows (targets : PostsTo b posts) (grows : Grows b b') : PostsTo b' posts := by
  intro p member
  obtain ⟨n,cell⟩ := targets p member
  obtain ⟨n',cell',_⟩ := grows.node _ _ cell
  exact ⟨n',cell'⟩

theorem runPosts_some (targets : PostsTo b posts) : ∃ b', runPosts posts b = some b' := by
  induction posts generalizing b with
  | nil => exact ⟨b,rfl⟩
  | cons p posts ih =>
    obtain ⟨n,cell⟩ := targets p List.mem_cons_self
    obtain ⟨mid,first⟩ := postNew_some (p := p) cell
    have later : PostsTo b posts := fun q member => targets q (List.mem_cons_of_mem _ member)
    obtain ⟨b',rest⟩ := ih (later.grows (postNew_grows first))
    exact ⟨b',by simp [runPosts,first,rest]⟩

end Bano
