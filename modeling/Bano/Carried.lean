import Bano.Migration

/-! Each operation of the loop has a result while allocations succeed and callbacks post to nodes that
exist, and carries every io from one place to another. -/
namespace Bano

open Lib

/-- A step that does not change which nodes and sockets are listed. -/
structure Carried (b b' : Base) (status : Ptr → Option Status) : Prop where
  placed : Placed b' status
  settled : Settled status
  nodes : b'.nodes = b.nodes
  sockets : b'.sockets = b.sockets
  socketMem : b'.socketMem = b.socketMem
  live : ∀ p n, b.nodeMem.cell p = some n → ∃ n', b'.nodeMem.cell p = some n'

theorem Grows.live {b b' : Base} (grows : Grows b b') (p : Ptr) (n : BanoNode) (cell : b.nodeMem.cell p = some n) :
    ∃ n', b'.nodeMem.cell p = some n' := by
  obtain ⟨n',cell',_⟩ := grows.node p n cell
  exact ⟨n',cell'⟩

theorem runPosts_carried {b : Base} (placed : Placed b status) (settled : Settled status)
    (targets : PostsTo b posts) :
    ∃ b' status', runPosts posts b = some b' ∧ Carried b b' status' := by
  obtain ⟨b',result⟩ := runPosts_some targets
  have grows := runPosts_grows result
  obtain ⟨status',placed',grown⟩ := runPosts_placed placed result
  exact ⟨b',status',result,placed',grown.settled settled,grows.nodes,grows.sockets,grows.socketMem,grows.live⟩

/-- The call of a completion function. -/
theorem completeIo_placed {b : Base} (placed : Placed b status) (cell : b.ioMem.cell io = some r)
    (targets : PostsTo b posts) (own : (f r).node = r.node) (flags : (f r).flags = r.flags)
    (ms : (f r).retryMs = r.retryMs) (timer : (f r).timer = r.timer) :
    ∃ mid status', completeIo b io r f posts = some mid ∧ Placed mid status' ∧ Extends status status' ∧
      Grows (completed b io r f) mid ∧ ∃ r', mid.ioMem.cell io = some r' := by
  obtain ⟨mid,called⟩ := complete_some (f := f) cell targets
  obtain ⟨posts',posted⟩ := complete_posts cell called
  have grows := runPosts_grows posted
  obtain ⟨status',placed',grown⟩ := runPosts_placed (completed_placed placed cell own flags ms timer) posted
  obtain ⟨r',live⟩ := completed_cell (f := f) cell
  exact ⟨mid,status',called,placed',grown,grows,r',(grows.io io (Heap.lt_next live)).trans live⟩

theorem completed_lists (b : Base) (io : Ptr) (r : BanoIo) (f : BanoIo → BanoIo) :
    (completed b io r f).nodes = b.nodes ∧ (completed b io r f).sockets = b.sockets ∧
      (completed b io r f).socketMem = b.socketMem := by
  unfold completed
  split <;> exact ⟨rfl,rfl,rfl⟩

/-- The node's item as it was when the callback was called. -/
theorem Grows.del {b mid : Base} {node li io : Ptr} (grows : Grows b mid) (cell : b.nodeMem.cell node = some n)
    (listed : (li,io) ∈ n.postedIos.entries) : ∃ m posted, mid.nodeMem.cell node = some m ∧
      m.postedIos.del li = some posted := by
  obtain ⟨m,cell',_,longer⟩ := grows.node node n cell
  obtain ⟨posted,removed⟩ := LinkedList.del_mem (longer.subset listed)
  exact ⟨m,posted,cell',removed⟩

theorem postIo_carried {b : Base} (placed : Placed b status) (settled : Settled status)
    (cell : b.nodeMem.cell node = some n) (listed : (li,io) ∈ n.postedIos.entries) (writes : env.writeFails = false)
    (mallocs : env.mallocPending = true ∧ env.mallocTimer = true ∧ env.mallocTimerItem = true)
    (targets : PostsTo b env.posts) : ∃ b' status', postIo env b node li = some b' ∧ Carried b b' status' ∧
      ∀ i s, i ≠ io → status i = some s → status' i = some s := by
  have mine := (placed.posted node n cell li io).mp listed
  obtain ⟨_,r,ioCell,own,wait⟩ := placed.held io _ mine
  have data := LinkedList.data_eq_some.mpr listed
  have written := placed.traced [.written node io n.addr (encMsg b n r.msg)] (by simp)
  by_cases waits : r.waits = true
  · obtain ⟨pending,addTail,_,_,tail⟩ := n.pendingIos.addTail_true io
    obtain ⟨q,timers,added,stored,_⟩ := placed.tailed.add (node,some n.pendingIos.nextItem)
    obtain ⟨posted,removed⟩ := LinkedList.del_mem listed
    obtain ⟨b',result⟩ : ∃ b', postIo env b node li = some b' := by
      simp [postIo,cell,data,ioCell,writes,waits,mallocs,addTail,wait waits,Base.emit,Base.setNode,added,
        tail,stored,removed]
    obtain ⟨n',io',r',cell',data',ioCell',_,cases⟩ := postIo_cases result
    obtain rfl := Option.some.inj (cell.symm.trans cell')
    obtain rfl := Option.some.inj (data.symm.trans data')
    obtain rfl := Option.some.inj (ioCell.symm.trans ioCell')
    rcases cases with ⟨_,⟨q',failed,_⟩ | moved⟩ | ⟨unacked,_⟩
    · simp [mallocs,wait waits,added] at failed
    · obtain ⟨moved⟩ := moved
      have placed' := moved_placed written mine cell ioCell waits mallocs moved
      refine ⟨b',_,result,⟨placed',.update (fun i _ t => settled i t) (by simp),?_,?_,?_,?_⟩,
        fun i s other known => ?_⟩
      · rw [moved.final]; rfl
      · rw [moved.final]; rfl
      · rw [moved.final]; rfl
      · intro p k live
        rw [moved.final]
        by_cases here : p = node
        · subst here
          exact ⟨_,by simp [Base.emit,cell]; rfl⟩
        · exact ⟨k,by simp [Base.emit,here,live]⟩
      · rw [Function.update_of_ne other,known]
    · simp [waits] at unacked
  · have unacked : r.waits = false := by simpa using waits
    let b1 := b.emit (.written node io n.addr (encMsg b n r.msg))
    have ioCell1 : b1.ioMem.cell io = some r := ioCell
    have targets1 : PostsTo b1 env.posts := targets
    obtain ⟨mid,status',called,placed',grown,grows,r',live⟩ :=
      completeIo_placed (f := writtenIo) (b := b1) written ioCell1
      targets1 rfl rfl rfl rfl
    have cell1 : (completed b1 io r writtenIo).nodeMem.cell node = some n := by
      rw [completed_nodeMem]
      exact cell
    obtain ⟨m,posted,cell',removed⟩ := grows.del cell1 listed
    have called' : completeIo (b.emit (.written node io n.addr (encMsg b n r.msg))) io r writtenIo env.posts =
      some mid := called
    have cell2 : (released mid io).nodeMem.cell node = some m := cell'
    have lists := completed_lists b1 io r writtenIo
    have result : postIo env b node li = some ((released mid io).setNode node { m with postedIos := posted }) := by
      simp [postIo,cell,data,ioCell,writes,unacked,called',banoFreeIo_live live,cell2,removed]
    refine ⟨_,_,result,⟨released_posted placed' (grown.old io _ mine) cell' removed,
      .update (fun i _ t => grown.settled settled i t) (by simp),grows.nodes.trans lists.1,
      grows.sockets.trans lists.2.1,grows.socketMem.trans lists.2.2,?_⟩,fun i s other known => ?_⟩
    · intro p k live
      by_cases here : p = node
      · subst here
        exact ⟨_,by simp [Base.setNode,released,cell']; rfl⟩
      · obtain ⟨k',live'⟩ := grows.live p k (by rw [completed_nodeMem]; exact live)
        exact ⟨k',by simp [Base.setNode,released,here,live']⟩
    · rw [Function.update_of_ne other,grown.old i s known]

/-- Storing a pair of a node moves no io. -/
theorem addPair_carried {b : Base} (placed : Placed b status) (settled : Settled status)
    (cell : b.nodeMem.cell node = some n) (env : FrameEnv) (msg : BanoMsg) :
    Carried b (addPair env b node n msg) status ∧
      (addPair env b node n msg).nodeMem.cell node = some { n with keyvalPairs := storedPairs env n msg } := by
  have cells : ∀ p, (b.nodeMem.modify node fun _ => { n with keyvalPairs := storedPairs env n msg }).cell p =
      if p = node then some { n with keyvalPairs := storedPairs env n msg } else b.nodeMem.cell p :=
    modify_cells cell _
  have live : ∀ p k, b.nodeMem.cell p = some k →
      ∃ k', (b.nodeMem.modify node fun _ => { n with keyvalPairs := storedPairs env n msg }).cell p = some k' := by
    intro p k live
    rw [cells]
    split
    · exact ⟨_,rfl⟩
    · exact ⟨k,live⟩
  have stored : Placed (b.setNode node { n with keyvalPairs := storedPairs env n msg }) status := by
    refine placed.frame (fun p k cell' => .inl ?_) live (fun _ r cell => ⟨r,cell,rfl,rfl,rfl,rfl⟩)
      (fun _ _ gone => gone) (Nat.le_refl _) placed.tailed (fun _ => Iff.rfl) (fun _ => rfl) (fun _ => Iff.rfl)
    rw [Base.setNode,cells] at cell'
    split at cell'
    · next here =>
      obtain rfl := Option.some.inj cell'
      exact ⟨n,here ▸ cell,rfl,rfl⟩
    · exact ⟨k,cell',rfl,rfl⟩
  rw [addPair_eq cell]
  refine ⟨⟨stored.traced _ ?_,settled,rfl,rfl,rfl,live⟩,by simp [Base.setNode,cell]⟩
  intro e member
  split at member
  · obtain rfl := List.mem_singleton.mp member
    simp
  · simp at member

theorem Carried.trans {a b c : Base} (one : Carried a b status) (other : Carried b c status') :
    Carried a c status' := by
  refine ⟨other.placed,other.settled,other.nodes.trans one.nodes,other.sockets.trans one.sockets,
    other.socketMem.trans one.socketMem,fun p n cell => ?_⟩
  obtain ⟨n',cell'⟩ := one.live p n cell
  exact other.live p n' cell'

/-- A callback that follows some events. -/
theorem traced_carried {b b' : Base} (placed : Placed b status) (settled : Settled status)
    (quiet : ∀ e ∈ es, ∀ node i r, e ≠ .posted node i r)
    (result : runPosts posts { b with trace := b.trace ++ es } = some b') : ∃ status', Carried b b' status' := by
  have grows := runPosts_grows result
  obtain ⟨status',placed',grown⟩ := runPosts_placed (placed.traced es quiet) result
  exact ⟨status',placed',grown.settled settled,grows.nodes,grows.sockets,grows.socketMem,grows.live⟩

theorem answer_carried {b b' : Base} (placed : Placed b status) (settled : Settled status)
    (cell : b.nodeMem.cell node = some n) (answer : Answer b node n msg io b') : ∃ status', Carried b b' status' := by
  obtain ⟨li,r,pending,posts,mid,t,timers,listed,ioCell,_,removed,called,timer,stopped,final⟩ := answer
  obtain ⟨t',mine⟩ := (placed.pending node n cell li io).mp listed
  obtain ⟨_,_,r',ioCell',_,_,_,timer'⟩ := placed.held io _ mine
  obtain rfl := Option.some.inj (ioCell.symm.trans ioCell')
  obtain rfl := Option.some.inj (timer.symm.trans timer')
  have taken := (taken_placed placed mine cell removed).traced [.answered io msg] (by simp)
  have keeps : (answerIo msg r).node = r.node ∧ (answerIo msg r).flags = r.flags ∧
      (answerIo msg r).retryMs = r.retryMs ∧ (answerIo msg r).timer = r.timer := by
    unfold answerIo
    split <;> exact ⟨rfl,rfl,rfl,rfl⟩
  have done := completed_placed (f := answerIo msg) taken ioCell keeps.1 keeps.2.1 keeps.2.2.1 keeps.2.2.2
  obtain ⟨status',placed',grown⟩ := runPosts_placed done called
  have grows := runPosts_grows called
  have mine' := grown.old io _ (Function.update_self _ _ _)
  obtain ⟨rfl,_⟩ := banoFreeIo_cases final
  refine ⟨_,released_taken placed' mine' stopped,.update (fun i other t' taken' => ?_) (by simp),
    grows.nodes.trans ?_,grows.sockets.trans ?_,grows.socketMem.trans ?_,?_⟩
  · cases known : status i with
    | some s =>
      have kept := grown.old i s (by rw [Function.update_of_ne other,known])
      rw [taken'] at kept
      obtain rfl := Option.some.inj kept
      exact settled i t' known
    | none =>
      obtain ⟨_,_,same⟩ := grown.new i _ (by rw [Function.update_of_ne other,known]) taken'
      simp at same
  · exact (completed_lists _ io r (answerIo msg)).1
  · exact (completed_lists _ io r (answerIo msg)).2.1
  · exact (completed_lists _ io r (answerIo msg)).2.2
  · intro p k live
    have before : ∃ k', (answered b node n pending msg io r).nodeMem.cell p = some k' := by
      rw [answered,completed_nodeMem]
      by_cases here : p = node
      · subst here
        exact ⟨_,by simp [Base.emit,Base.setNode,cell]; rfl⟩
      · exact ⟨k,by simp [Base.emit,Base.setNode,here,live]⟩
    obtain ⟨k',live'⟩ := before
    exact grows.live p k' live'

theorem Placed.stops {b : Base} (placed : Placed b status) (cell : b.nodeMem.cell node = some n) :
    ∀ e ∈ n.pendingIos.entries, ∃ r t timers, b.ioMem.cell e.2 = some r ∧ r.timer = some t ∧
      banoTimerDel b.timers t = some timers := by
  intro e member
  obtain ⟨t,mine⟩ := (placed.pending node n cell e.1 e.2).mp member
  obtain ⟨_,_,r,ioCell,_,_,_,timer⟩ := placed.held e.2 _ mine
  obtain ⟨timers,stopped,_⟩ := placed.tailed.del (placed.timed mine rfl)
  exact ⟨r,t,timers,ioCell,timer,stopped⟩

theorem handleSetMsg_carried {b : Base} (linfo : LoopInfo) (placed : Placed b status) (settled : Settled status)
    (cell : b.nodeMem.cell node = some n) (source : n.addr = msg.saddr) (targets : PostsTo b env.posts) :
    ∃ b' status', handleSetMsg linfo env b msg node = some b' ∧ Carried b b' status' := by
  obtain ⟨b',result⟩ := handleSetMsg_some linfo cell source (placed.stops cell) targets
  obtain ⟨n',cell',cases⟩ := handleSetMsg_cases result
  obtain rfl := Option.some.inj (cell.symm.trans cell')
  obtain ⟨added,here⟩ := addPair_carried placed settled cell env msg
  rcases cases with ⟨posts,es,called,shape,_⟩ | ⟨_,⟨_,rfl⟩ | ⟨m,io,cell'',⟨answer⟩⟩⟩
  · have quiet : ∀ e ∈ es, ∀ node i r, e ≠ .posted node i r := by
      rcases shape with rfl | rfl <;> simp
    obtain ⟨status',carried⟩ := traced_carried added.placed settled quiet called
    exact ⟨b',status',result,added.trans carried⟩
  · exact ⟨_,status,result,added⟩
  · obtain ⟨status',carried⟩ := answer_carried added.placed settled cell'' answer
    exact ⟨b',status',result,added.trans carried⟩

theorem dispatch_carried {b : Base} (linfo : LoopInfo) (placed : Placed b status) (settled : Settled status)
    (cell : b.nodeMem.cell node = some n) (source : n.addr = msg.saddr) (targets : PostsTo b env.posts) :
    ∃ b' status', dispatch linfo env b msg node = some b' ∧ Carried b b' status' := by
  by_cases set : msg.op = msgOpSet
  · obtain ⟨b',status',result,carried⟩ := handleSetMsg_carried linfo placed settled cell source targets
    exact ⟨b',status',by simp [dispatch,set,result],carried⟩
  · have handled : ∃ b', dispatch linfo env b msg node = some b' := by
      unfold dispatch handleGetMsg
      rw [if_neg set]
      split
      · split
        · exact runPosts_some targets
        · exact ⟨b,rfl⟩
      · exact ⟨b,rfl⟩
    obtain ⟨b',result⟩ := handled
    rcases dispatch_cases result with ⟨set',_⟩ | ⟨_,posts,es,called,shape⟩
    · exact (set set').elim
    · have quiet : ∀ e ∈ es, ∀ node i r, e ≠ .posted node i r := by
        rcases shape with rfl | ⟨_,rfl⟩ <;> simp
      obtain ⟨status',carried⟩ := traced_carried placed settled quiet called
      exact ⟨b',status',result,carried⟩

theorem setNode_twice (b : Base) (p : Ptr) (n n' : BanoNode) : (b.setNode p n).setNode p n' = b.setNode p n' := by
  simp only [Base.setNode,modify_twice]
  rfl

theorem expiring_fields (r : BanoIo) : (expiring r).node = r.node ∧ (expiring r).flags = r.flags ∧
    (expiring r).retryMs = r.retryMs ∧ (expiring r).timer = r.timer := ⟨rfl,rfl,rfl,rfl⟩

/-- A pending io that ends when its timer expires. -/
theorem expirePending_ended {b : Base} (placed : Placed b status) (settled : Settled status)
    (mine : status io = some (.pending node li t)) (ioCell : b.ioMem.cell io = some r) (targets : PostsTo b env.posts)
    (ends : expireIo env (b.setIo io (expiring r)) io r =
      (completeIo (b.setIo io (expiring r)) io r timeoutIo env.posts).bind fun mid => banoFreeIo mid io) :
    ∃ b' status', expirePending env b t = some b' ∧ Carried b b' status' := by
  obtain ⟨⟨n,cell⟩,data,_⟩ := placed.held io _ mine
  obtain ⟨listed,_⟩ := placed.pending_only cell mine
  obtain ⟨pending,removed⟩ := LinkedList.del_mem listed
  obtain ⟨timers,stopped,_⟩ := placed.tailed.del ((placed.timers t).mpr ⟨io,_,mine,rfl⟩)
  have placed0 : Placed (b.setIo io (expiring r)) status := by
    have unchanged := placed.setIo ioCell (expiring_fields r).1 (expiring_fields r).2.1 (expiring_fields r).2.2.1
      (expiring_fields r).2.2.2 [] (by simp)
    simpa [Base.setIo] using unchanged
  have ioCell0 : (b.setIo io (expiring r)).ioMem.cell io = some (expiring r) := by simp [Base.setIo,ioCell]
  have targets0 : PostsTo (b.setIo io (expiring r)) env.posts := targets
  obtain ⟨mid,status',called,placed',grown,grows,r',ioLive⟩ := completeIo_placed (f := timeoutIo) placed0 ioCell0
    targets0 rfl rfl rfl rfl
  have lists := completed_lists (b.setIo io (expiring r)) io (expiring r) timeoutIo
  obtain ⟨m,cell',same,_⟩ := grows.node node n (by rw [completed_nodeMem]; exact cell)
  have samePending : m.pendingIos = n.pendingIos := by rw [same]
  have stopped' : banoTimerDel mid.timers t = some timers := by
    rw [grows.timers,completed_timers]
    exact stopped
  have removed' : m.pendingIos.del li = some pending := samePending ▸ removed
  have called' : completeIo (b.setIo io (expiring r)) io r timeoutIo env.posts = some mid := called
  have expired : expireIo env (b.setIo io (expiring r)) io r = some (released mid io) := by
    rw [ends,called']
    exact banoFreeIo_live ioLive
  have expiry : Expiry env b t _ :=
    ⟨node,li,n,io,r,released mid io,m,pending,timers,data,cell,listed,ioCell,expired,cell',removed',stopped',rfl⟩
  refine ⟨_,_,expiry.result,released_pending placed' (grown.old io _ mine) cell' removed' stopped',
    .update (fun i _ t => grown.settled settled i t) (by simp),grows.nodes.trans lists.1,
    grows.sockets.trans lists.2.1,grows.socketMem.trans lists.2.2,?_⟩
  intro p k live
  by_cases here : p = node
  · subst here
    exact ⟨_,by simp [Base.setNode,released,cell']; rfl⟩
  · obtain ⟨k',live'⟩ := grows.live p k (by rw [completed_nodeMem]; exact live)
    exact ⟨k',by simp [Base.setNode,released,here,live']⟩

/-- A pending io whose timer expires completes, or is posted again. -/
theorem expirePending_carried {b : Base} (placed : Placed b status) (settled : Settled status)
    (member : t ∈ timersOf b.timers) (mallocs : env.mallocPosted = true) (targets : PostsTo b env.posts) :
    ∃ b' status', expirePending env b t = some b' ∧ Carried b b' status' := by
  obtain ⟨io,s,mine,timer⟩ := (placed.timers t).mp member
  cases s with
  | posted | released => simp [Status.timer] at timer
  | taken t' => exact (settled io t' mine).elim
  | pending node li t' =>
  obtain rfl : t = t' := (Option.some.inj timer).symm
  obtain ⟨⟨n,cell⟩,data,r,ioCell,own,waits,_⟩ := placed.held io _ mine
  by_cases last : r.retryCount = 0
  · exact expirePending_ended placed settled mine ioCell targets (if_pos last)
  · obtain ⟨listed,_⟩ := placed.pending_only cell mine
    obtain ⟨pending,removed⟩ := LinkedList.del_mem listed
    obtain ⟨timers,stopped,_⟩ := placed.tailed.del member
    have placed0 : Placed (b.setIo io (expiring r)) status := by
      have unchanged := placed.setIo ioCell (expiring_fields r).1 (expiring_fields r).2.1 (expiring_fields r).2.2.1
        (expiring_fields r).2.2.2 [] (by simp)
      simpa [Base.setIo] using unchanged
    obtain ⟨posted,added,entries,_⟩ := n.postedIos.addTail_true io
    have cell0 : (b.setIo io (expiring r)).nodeMem.cell node = some n := cell
    have cell1 : ((b.setIo io (expiring r)).setNode node { n with postedIos := posted }).nodeMem.cell node =
        some { n with postedIos := posted } := by simp [Base.setNode,cell0]
    have reposted : expireIo env (b.setIo io (expiring r)) io r =
        some ((b.setIo io (expiring r)).setNode node { n with postedIos := posted }) := by
      rw [expireIo,if_neg last]
      simp [own,cell0,mallocs,added]
    have expiry : Expiry env b t _ :=
      ⟨node,li,n,io,r,_,_,pending,timers,data,cell,listed,ioCell,reposted,cell1,removed,stopped,rfl⟩
    have result : expirePending env b t = some { (b.setIo io (expiring r)).setNode node
        { n with postedIos := posted, pendingIos := pending } with timers := timers } := by
      rw [expiry.result,setNode_twice]
    refine ⟨_,_,result,reposted_placed placed0 mine cell entries removed stopped,
      .update (fun i _ t => settled i t) (by simp),rfl,rfl,rfl,?_⟩
    intro p k live
    by_cases here : p = node
    · subst here
      exact ⟨_,by simp [Base.setNode,Base.setIo,cell]; rfl⟩
    · exact ⟨k,by simp [Base.setNode,Base.setIo,here,live]⟩

structure Alive (b : Base) (status : Ptr → Option Status) : Prop where
  placed : Placed b status
  settled : Settled status
  node : ∀ e ∈ b.nodes.entries, ∃ n, b.nodeMem.cell e.2 = some n
  socket : ∀ e ∈ b.sockets.entries, ∃ s, b.socketMem.cell e.2 = some s

theorem Carried.alive {b b' : Base} (carried : Carried b b' status') (alive : Alive b status) : Alive b' status' := by
  refine ⟨carried.placed,carried.settled,fun e member => ?_,fun e member => ?_⟩
  · rw [carried.nodes] at member
    obtain ⟨n,cell⟩ := alive.node e member
    exact carried.live e.2 n cell
  · rw [carried.sockets] at member
    rw [carried.socketMem]
    exact alive.socket e member

/-- The frame comes from an address that is not known, and there is memory for its node. -/
def AddsNode (env : FrameEnv) (b : Base) (msg : BanoMsg) : Prop :=
  findNodeByAddr b (decMsg b msg).saddr = some none ∧ b.flags &&& baseFlagNewNodes ≠ 0 ∧
    env.mallocNode = true ∧ env.mallocNodeItem = true

/-- The callbacks post to nodes that exist, the one added by the frame among them. -/
def FrameReady (env : FrameEnv) (b : Base) (msg : BanoMsg) : Prop :=
  ∀ p ∈ env.posts ++ env.nodePosts, (∃ n, b.nodeMem.cell p.node = some n) ∨
    p.node = b.nodeMem.next ∧ AddsNode env b msg

theorem addNode_placed {b : Base} (placed : Placed b status) (nodes : LinkedList Ptr) (addr : U32) (socket : Ptr) :
    Placed { b with nodes := nodes, nodeMem := b.nodeMem.alloc (banoNodeAlloc addr socket) } status := by
  refine placed.frame (fun p n cell => ?_) (fun p n live => ⟨n,Heap.alloc_cell_live live _⟩)
    (fun _ r cell => ⟨r,cell,rfl,rfl,rfl,rfl⟩) (fun _ _ gone => gone) (Nat.le_refl _) placed.tailed
    (fun _ => Iff.rfl) (fun _ => rfl) (fun _ => Iff.rfl)
  by_cases here : p = b.nodeMem.next
  · subst here
    rw [Heap.alloc_cell_next] at cell
    obtain rfl := Option.some.inj cell
    exact .inr ⟨Heap.cell_next _,rfl,rfl⟩
  · rw [Heap.alloc_cell_other here] at cell
    exact .inl ⟨n,cell,rfl,rfl⟩

theorem callNodeFn_some {b : Base} (targets : PostsTo b env.nodePosts) (linfo : LoopInfo) (node : Ptr) :
    ∃ mid posts es, callNodeFn linfo env b node = some mid ∧
      runPosts posts { b with trace := b.trace ++ es } = some mid ∧ ∀ e ∈ es, ∀ node i r, e ≠ .posted node i r := by
  unfold callNodeFn
  split
  · have targets' : PostsTo (b.emit (.newNode node)) env.nodePosts := targets
    obtain ⟨mid,called⟩ := runPosts_some targets'
    exact ⟨mid,_,_,called,called,by simp⟩
  · exact ⟨b,[],[],rfl,by simp [runPosts],by simp⟩

theorem handleBanoMsg_alive {b : Base} (alive : Alive b status) (ready : FrameReady env b msg) (linfo : LoopInfo)
    (socket : Ptr) : ∃ err b' status', handleBanoMsg linfo env b socket msg = some (err,b') ∧ Alive b' status' := by
  have search := findNodeByAddr_eq (decMsg b msg).saddr alive.node
  cases first : b.nodes.entries.find? (hasAddr b (decMsg b msg).saddr) with
  | some e =>
    rw [first,Option.map_some] at search
    have found := List.find?_some first
    obtain ⟨n,cell⟩ := alive.node e (List.mem_of_find?_eq_some first)
    simp only [hasAddr,cell,Option.any_some,decide_eq_true_eq] at found
    have targets : PostsTo b env.posts := by
      intro p member
      rcases ready p (List.mem_append_left _ member) with live | ⟨_,none,_⟩
      · exact live
      · simp [search] at none
    obtain ⟨b',status',handled,carried⟩ := dispatch_carried linfo alive.placed alive.settled cell found targets
    exact ⟨0,b',status',by simp [handleBanoMsg,search,handled],carried.alive alive⟩
  | none =>
    rw [first,Option.map_none] at search
    by_cases refused : b.flags &&& baseFlagNewNodes = 0
    · exact ⟨0,b,status,by rw [handleBanoMsg,search]; simp only [Option.bind_eq_bind,Option.bind_some,
        if_pos refused],alive⟩
    cases malloc : env.mallocNode with
    | false =>
      refine ⟨-1,b,status,?_,alive⟩
      rw [handleBanoMsg,search]
      simp only [Option.bind_eq_bind,Option.bind_some,if_neg refused,malloc,Bool.false_eq_true,if_false]
    | true =>
    rcases b.nodes.addTail_cases env.mallocNodeItem b.nodeMem.next with failed | ⟨nodes,added,entries,_⟩
    · refine ⟨-1,b,status,?_,alive⟩
      rw [handleBanoMsg,search]
      simp only [Option.bind_eq_bind,Option.bind_some,if_neg refused,malloc,if_true,failed]
      rfl
    · let b1 := { b with nodes := nodes, nodeMem := b.nodeMem.alloc (banoNodeAlloc (decMsg b msg).saddr socket) }
      have targets : ∀ posts, (∀ p ∈ posts, p ∈ env.posts ++ env.nodePosts) → PostsTo b1 posts := by
        intro posts inside p member
        rcases ready p (inside p member) with ⟨n,cell⟩ | ⟨same,_⟩
        · exact ⟨n,Heap.alloc_cell_live cell _⟩
        · exact ⟨_,by rw [same]; exact Heap.alloc_cell_next _ _⟩
      have cells : ∀ p n, b.nodeMem.cell p = some n → b1.nodeMem.cell p = some n :=
        fun p n live => Heap.alloc_cell_live live _
      have new : b1.nodeMem.cell b.nodeMem.next = some (banoNodeAlloc (decMsg b msg).saddr socket) :=
        Heap.alloc_cell_next _ _
      have alive1 : Alive b1 status := by
        refine ⟨addNode_placed alive.placed nodes _ socket,alive.settled,fun e member => ?_,alive.socket⟩
        rcases List.mem_append.mp (entries ▸ member) with old | last
        · obtain ⟨n,cell⟩ := alive.node e old
          exact ⟨n,cells e.2 n cell⟩
        · obtain rfl := List.mem_singleton.mp last
          exact ⟨_,new⟩
      obtain ⟨mid,posts,es,called,posted,quiet⟩ := callNodeFn_some (targets _ fun p => List.mem_append_right _) linfo
        b.nodeMem.next
      have grows := runPosts_grows posted
      obtain ⟨status',carried⟩ := traced_carried alive1.placed alive1.settled quiet posted
      obtain ⟨n',cell',same,_⟩ := grows.node _ _ new
      have source : n'.addr = (decMsg b msg).saddr := by rw [same]; rfl
      have targets' : PostsTo mid env.posts :=
        PostsTo.grows (b := { b1 with trace := b1.trace ++ es }) (targets _ fun p => List.mem_append_left _) grows
      obtain ⟨b',status'',handled,carried'⟩ := dispatch_carried linfo carried.placed carried.settled cell' source
        targets'
      refine ⟨0,b',status'',?_,carried'.alive (carried.alive alive1)⟩
      rw [handleBanoMsg,search]
      simp only [Option.bind_eq_bind,Option.bind_some,if_neg refused,malloc,if_true,added]
      show (callNodeFn linfo env b1 b.nodeMem.next).bind _ = _
      rw [called]
      simp [handled]

end Bano
