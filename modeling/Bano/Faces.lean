import Bano.Steps

/-! What a base keeps while ios come and go. The face of a node is what it has beside its ios; only
a SET changes it, and only a frame from an unknown address adds one. -/
namespace Bano

open Lib

/-- The node without its ios. -/
def BanoNode.face (n : BanoNode) : BanoNode := { n with postedIos := .empty, pendingIos := .empty }

/-- Nothing changes but ios and timers, and nodes may be released. -/
structure Calm (b b' : Base) : Prop where
  flags : b'.flags = b.flags
  cipher : b'.cipher = b.cipher
  nodls : b'.nodls = b.nodls
  next : b'.nodeMem.next = b.nodeMem.next
  nodes : b'.nodes.entries.Sublist b.nodes.entries
  face : ∀ p n', b'.nodeMem.cell p = some n' → ∃ n, b.nodeMem.cell p = some n ∧ n'.face = n.face

theorem Calm.refl (b : Base) : Calm b b :=
  ⟨rfl,rfl,rfl,rfl,List.Sublist.refl _,fun _ n cell => ⟨n,cell,rfl⟩⟩

theorem Calm.trans (one : Calm a b) (other : Calm b c) : Calm a c := by
  refine ⟨other.flags.trans one.flags,other.cipher.trans one.cipher,other.nodls.trans one.nodls,
    other.next.trans one.next,other.nodes.trans one.nodes,fun p n'' cell'' => ?_⟩
  obtain ⟨n',cell',same'⟩ := other.face p n'' cell''
  obtain ⟨n,cell,same⟩ := one.face p n' cell'
  exact ⟨n,cell,same'.trans same⟩

/-- A step that leaves the nodes alone. -/
theorem calm_same {b b' : Base} (flags : b'.flags = b.flags) (cipher : b'.cipher = b.cipher)
    (nodls : b'.nodls = b.nodls)
    (nodes : b'.nodes = b.nodes) (nodeMem : b'.nodeMem = b.nodeMem) : Calm b b' := by
  refine ⟨flags,cipher,nodls,by rw [nodeMem],by rw [nodes],fun p n cell => ?_⟩
  rw [nodeMem] at cell
  exact ⟨n,cell,rfl⟩

/-- A step that changes the ios of one node. -/
theorem calm_modify {b b' : Base} (cell : b.nodeMem.cell node = some n) (same : n'.face = n.face)
    (flags : b'.flags = b.flags)
    (cipher : b'.cipher = b.cipher) (nodls : b'.nodls = b.nodls) (nodes : b'.nodes = b.nodes)
    (nodeMem : b'.nodeMem = b.nodeMem.modify node fun _ => n') : Calm b b' := by
  refine ⟨flags,cipher,nodls,by rw [nodeMem]; rfl,by rw [nodes],fun p m live => ?_⟩
  rw [nodeMem] at live
  by_cases here : p = node
  · subst here
    rw [Heap.modify_cell_same,cell] at live
    exact ⟨n,cell,Option.some.inj live ▸ same⟩
  · rw [Heap.modify_cell_other here] at live
    exact ⟨m,live,rfl⟩

theorem Grows.calm (grows : Grows b b') : Calm b b' := by
  refine ⟨grows.flags,grows.cipher,grows.nodls,grows.nodeNext,by rw [grows.nodes],fun p n' cell' => ?_⟩
  cases cell : b.nodeMem.cell p with
  | none => simp [grows.gone p cell] at cell'
  | some n =>
    obtain ⟨m,live,same,_⟩ := grows.node p n cell
    obtain rfl := Option.some.inj (live.symm.trans cell')
    refine ⟨n,rfl,?_⟩
    rw [same]
    rfl

theorem runPosts_calm (result : runPosts posts b = some b') : Calm b b' := (runPosts_grows result).calm

theorem completed_calm (b : Base) (io : Ptr) (r : BanoIo) (f : BanoIo → BanoIo) : Calm b (completed b io r f) := by
  unfold completed
  split <;> exact calm_same rfl rfl rfl rfl rfl

theorem released_calm (b : Base) (io : Ptr) : Calm b (released b io) := calm_same rfl rfl rfl rfl rfl

theorem Released.calm (gone : Released b b' nodes ios) (next : b'.nodeMem.next = b.nodeMem.next) : Calm b b' := by
  refine ⟨by rw [gone.same],by rw [gone.same],by rw [gone.same],next,by rw [gone.same],fun p n' cell' => ?_⟩
  rw [gone.node] at cell'
  split at cell'
  · exact nomatch cell'
  · exact ⟨n',cell',rfl⟩

theorem emit_calm (b : Base) (e : Event) : Calm b (b.emit e) := calm_same rfl rfl rfl rfl rfl

theorem trace_calm (b : Base) (trace : List Event) : Calm b { b with trace := trace } := calm_same rfl rfl rfl rfl rfl

theorem postIo_calm (result : postIo env b node li = some b') : Calm b b' := by
  obtain ⟨n,io,r,cell,_,_,_,⟨_,⟨q,_,rfl⟩ | ⟨⟨moved⟩⟩⟩ | ⟨_,⟨done⟩⟩⟩ := postIo_cases result
  · let n' := { n with pendingIos := (n.pendingIos.addTail env.mallocPending io).2 }
    have same : n'.face = n.face := rfl
    exact calm_modify cell same rfl rfl rfl rfl rfl
  · let n' := { n with postedIos := moved.posted, pendingIos := (n.pendingIos.addTail env.mallocPending io).2 }
    have same : n'.face = n.face := rfl
    rw [moved.final]
    exact calm_modify cell same rfl rfl rfl rfl rfl
  · have written := emit_calm b (.written node io n.addr (encMsg b n r.msg))
    have ended := ((written.trans (completed_calm _ io r writtenIo)).trans (runPosts_calm done.called)).trans
      (released_calm done.mid io)
    let n' := { done.n with postedIos := done.posted }
    have same : n'.face = done.n.face := rfl
    have live : (released done.mid io).nodeMem.cell node = some done.n := done.cell
    rw [done.final]
    exact ended.trans (calm_modify live same rfl rfl rfl rfl rfl)

theorem expirePending_calm (result : expirePending env b t = some b') : Calm b b' := by
  obtain ⟨expiry⟩ := expirePending_cases result
  have cell : (b.setIo expiry.io (expiring expiry.r)).ioMem.cell expiry.io = some (expiring expiry.r) := by
    simp [Base.setIo,expiry.ioCell]
  have counted : Calm b (b.setIo expiry.io (expiring expiry.r)) := calm_same rfl rfl rfl rfl rfl
  have expired : Calm b expiry.mid := by
    rcases expireIo_cases cell expiry.expired with ⟨_,posts,mid,called,final⟩ | ⟨_,dest,d,posted,_,live,_,final⟩
    · rw [final]
      exact ((counted.trans (completed_calm _ _ _ _)).trans (runPosts_calm called)).trans (released_calm mid _)
    · let d' := { d with postedIos := posted }
      have same : d'.face = d.face := rfl
      rw [final]
      exact counted.trans (calm_modify live same rfl rfl rfl rfl rfl)
  let n' := { expiry.n' with pendingIos := expiry.pending }
  have same : n'.face = expiry.n'.face := rfl
  rw [expiry.final]
  exact expired.trans (calm_modify expiry.cell' same rfl rfl rfl rfl rfl)

theorem selectTimer_calm (result : selectTimer ready tv env s = some s') : Calm s.base s'.base := by
  rcases selectTimer_cases result with rfl | ⟨t,_,timers,_,_,rfl | ⟨_,b,expired,rfl⟩ | ⟨_,b,q,called,_,rfl⟩⟩
  · exact .refl _
  · exact calm_same rfl rfl rfl rfl rfl
  · have updated : Calm s.base { s.base with timers := timers } := calm_same rfl rfl rfl rfl rfl
    exact updated.trans (expirePending_calm expired)
  · have updated : Calm s.base (Base.emit { s.base with timers := timers } .timerFn) := calm_same rfl rfl rfl rfl rfl
    have stopped : Calm b { b with timers := q } := calm_same rfl rfl rfl rfl rfl
    exact (updated.trans (runPosts_calm called)).trans stopped

theorem doNewNode_calm (result : doNewNode linfo posts b li = some b') : Calm b b' := by
  obtain ⟨node,_,result⟩ := Option.bind_eq_some_iff.mp result
  split at result
  · exact (emit_calm b _).trans (runPosts_calm result)
  · exact Option.some.inj result ▸ .refl _

theorem freeIoItems_nodeMem (result : freeIoItems es b = some b') : b'.nodeMem = b.nodeMem := by
  induction es generalizing b with
  | nil => exact Option.some.inj result ▸ rfl
  | cons e es ih =>
    obtain ⟨mid,freed,rest⟩ := Option.bind_eq_some_iff.mp result
    rw [ih rest,(banoFreeIo_cases freed).1]
    rfl

theorem banoNodeFree_calm (result : banoNodeFree b node = some b') : Calm b b' := by
  obtain ⟨_,_,gone⟩ := banoNodeFree_released result
  apply gone.calm
  obtain ⟨n,_,result⟩ := Option.bind_eq_some_iff.mp result
  obtain ⟨mid,posted,result⟩ := Option.bind_eq_some_iff.mp result
  obtain ⟨mid',pending,result⟩ := Option.bind_eq_some_iff.mp result
  obtain ⟨nodeMem,freed,same⟩ := Option.bind_eq_some_iff.mp result
  obtain ⟨_,rfl⟩ := Heap.free_eq_some.mp freed
  obtain rfl := Option.some.inj same
  show mid'.nodeMem.next = b.nodeMem.next
  rw [freeIoItems_nodeMem pending,freeIoItems_nodeMem posted]

theorem freeNodeItems_calm (result : freeNodeItems es b = some b') : Calm b b' := by
  induction es generalizing b with
  | nil => exact Option.some.inj result ▸ .refl _
  | cons e es ih =>
    obtain ⟨mid,freed,rest⟩ := Option.bind_eq_some_iff.mp result
    exact (banoNodeFree_calm freed).trans (ih rest)

theorem banoSocketFree_calm (result : banoSocketFree b socket = some b') : Calm b b' := by
  obtain ⟨mid,nodes,result⟩ := Option.bind_eq_some_iff.mp result
  obtain ⟨socketMem,_,rfl⟩ := bind_some.mp result
  exact (freeNodeItems_calm nodes).trans (calm_same rfl rfl rfl rfl rfl)

theorem freeSocketItems_calm (result : freeSocketItems es b = some b') : Calm b b' := by
  induction es generalizing b with
  | nil => exact Option.some.inj result ▸ .refl _
  | cons e es ih =>
    obtain ⟨mid,freed,rest⟩ := Option.bind_eq_some_iff.mp result
    exact (banoSocketFree_calm freed).trans (ih rest)

theorem banoClose_calm (result : banoClose b = some b') : Calm b b' := by
  obtain ⟨timers,_,result⟩ := Option.bind_eq_some_iff.mp result
  obtain ⟨mid,nodes,result⟩ := Option.bind_eq_some_iff.mp result
  obtain ⟨mid',sockets,rfl⟩ := bind_some.mp result
  have stopped : Calm b { b with timers := timers } := calm_same rfl rfl rfl rfl rfl
  have emptied : Calm mid { mid with nodes := .empty } :=
    ⟨rfl,rfl,rfl,rfl,List.nil_sublist _,fun _ n cell => ⟨n,cell,rfl⟩⟩
  have closed : Calm mid' { mid' with sockets := .empty } := calm_same rfl rfl rfl rfl rfl
  exact (((stopped.trans (freeNodeItems_calm nodes)).trans emptied).trans (freeSocketItems_calm sockets)).trans closed

theorem face_fields {n n' : BanoNode} (same : n'.face = n.face) : n'.flags = n.flags ∧ n'.addr = n.addr ∧
    n'.socket = n.socket ∧ n'.nodl = n.nodl ∧ n'.keyvalPairs = n.keyvalPairs := by
  simp only [BanoNode.face,BanoNode.mk.injEq] at same
  exact ⟨same.1,same.2.1,same.2.2.1,same.2.2.2.1,same.2.2.2.2.2.2⟩

/-- The face of a node decides what a SET stores. -/
theorem storedPairs_face {n n' : BanoNode} (same : n'.face = n.face) (env : FrameEnv) (msg : BanoMsg) :
    { n' with keyvalPairs := storedPairs env n' msg }.face =
      { n with keyvalPairs := storedPairs env n msg }.face := by
  obtain ⟨flags,addr,socket,nodl,pairs⟩ := face_fields same
  have stored : storedPairs env n' msg = storedPairs env n msg := by
    unfold storedPairs stores
    rw [nodl,pairs]
  simp only [BanoNode.face,stored,flags,addr,socket,nodl]

theorem setNode_nodeMem {b : Base} (cell : b.nodeMem.cell node = some n) (n' : BanoNode) (p : Ptr) :
    (b.setNode node n').nodeMem.cell p = if p = node then some n' else b.nodeMem.cell p := by
  by_cases here : p = node
  · subst here
    simp [Base.setNode,cell]
  · simp [Base.setNode,here]

theorem addPair_nodeMem {b : Base} (cell : b.nodeMem.cell node = some n) (p : Ptr) :
    (addPair env b node n msg).nodeMem.cell p =
      if p = node then some { n with keyvalPairs := storedPairs env n msg } else b.nodeMem.cell p := by
  rw [addPair_eq cell]
  exact setNode_nodeMem cell _ p

theorem addPair_calm (calm : Calm b b') (cell : b.nodeMem.cell node = some n) (cell' : b'.nodeMem.cell node = some n')
    (env : FrameEnv) (msg : BanoMsg) : Calm (addPair env b node n msg) (addPair env b' node n' msg) := by
  have same : n'.face = n.face := by
    obtain ⟨m,live,same⟩ := calm.face node n' cell'
    rw [cell] at live
    exact (Option.some.inj live) ▸ same
  have one : addPair env b node n msg = _ := addPair_eq cell
  have other : addPair env b' node n' msg = _ := addPair_eq cell'
  refine ⟨?_,?_,?_,?_,?_,fun p m' live => ?_⟩
  · rw [one,other]
    exact calm.flags
  · rw [one,other]
    exact calm.cipher
  · rw [one,other]
    exact calm.nodls
  · rw [one,other]
    exact calm.next
  · rw [one,other]
    exact calm.nodes
  · rw [addPair_nodeMem cell'] at live
    rw [addPair_nodeMem cell]
    split
    · next here =>
      rw [if_pos here] at live
      exact ⟨_,rfl,Option.some.inj live ▸ storedPairs_face same env msg⟩
    · next apart =>
      rw [if_neg apart] at live
      exact calm.face p m' live

theorem answer_calm (answer : Answer b node n msg io b') (cell : b.nodeMem.cell node = some n) : Calm b b' := by
  let n' := { n with pendingIos := answer.pending }
  have same : n'.face = n.face := rfl
  have left : Calm b ((b.setNode node n').emit (.answered io msg)) := calm_modify cell same rfl rfl rfl rfl rfl
  have called : Calm b answer.mid := (left.trans (completed_calm _ _ _ _)).trans (runPosts_calm answer.called)
  have stopped : Calm answer.mid { answer.mid with timers := answer.timers } := calm_same rfl rfl rfl rfl rfl
  have final := (banoFreeIo_cases answer.final).1
  rw [final]
  exact (called.trans stopped).trans (released_calm _ io)

/-- After it has stored its value, a SET changes ios only. -/
theorem handleSetMsg_calm (cell : b.nodeMem.cell node = some n)
    (result : handleSetMsg linfo env b msg node = some b') :
    Calm (addPair env b node n msg) b' := by
  obtain ⟨m,live,cases⟩ := handleSetMsg_cases result
  obtain rfl := Option.some.inj (cell.symm.trans live)
  rcases cases with ⟨posts,es,called,_⟩ | ⟨_,⟨_,rfl⟩ | ⟨m,io,here,⟨answer⟩⟩⟩
  · exact (trace_calm _ _).trans (runPosts_calm called)
  · exact .refl _
  · exact answer_calm answer here

theorem dispatch_calm (other : msg.op ≠ msgOpSet) (result : dispatch linfo env b msg node = some b') : Calm b b' := by
  rcases dispatch_cases result with ⟨set,_⟩ | ⟨_,posts,es,called,_⟩
  · exact absurd set other
  · exact (trace_calm b _).trans (runPosts_calm called)

/-- The base with a node for an address that was not known. -/
def registered (b : Base) (nodes : LinkedList Ptr) (addr : U32) (socket : Ptr) : Base :=
  { b with nodes := nodes, nodeMem := b.nodeMem.alloc (banoNodeAlloc addr socket) }

/-- What a frame, deciphered to `m`, does to the faces of the nodes. -/
inductive Heard (env : FrameEnv) (socket : Ptr) (m : BanoMsg) (b b' : Base) : Prop where
  | other : Calm b b' → (m.op = msgOpSet → findNodeByAddr b m.saddr = some none ∧
      (b.flags &&& baseFlagNewNodes = 0 ∨ (env.mallocNode && env.mallocNodeItem) = false)) → Heard env socket m b b'
  | known : findNodeByAddr b m.saddr = some (some node) → b.nodeMem.cell node = some n → m.op = msgOpSet →
      Calm (addPair env b node n m) b' → Heard env socket m b b'
  | new : findNodeByAddr b m.saddr = some none → b.flags &&& baseFlagNewNodes ≠ 0 →
      nodes.entries = b.nodes.entries ++ [(b.nodes.nextItem,b.nodeMem.next)] →
      (m.op ≠ msgOpSet → Calm (registered b nodes m.saddr socket) b') →
      (m.op = msgOpSet → Calm (addPair env (registered b nodes m.saddr socket) b.nodeMem.next
        (banoNodeAlloc m.saddr socket) m) b') → Heard env socket m b b'

theorem callNodeFn_calm (result : callNodeFn linfo env b node = some b') : Calm b b' := by
  unfold callNodeFn at result
  split at result
  · exact (emit_calm b _).trans (runPosts_calm result)
  · exact Option.some.inj result ▸ .refl _

theorem dispatch_cell (set : msg.op = msgOpSet) (result : dispatch linfo env b msg node = some b') :
    ∃ n, b.nodeMem.cell node = some n ∧ Calm (addPair env b node n msg) b' := by
  rcases dispatch_cases result with ⟨_,handled⟩ | ⟨other,_⟩
  · obtain ⟨n,cell,_⟩ := handleSetMsg_cases handled
    exact ⟨n,cell,handleSetMsg_calm cell handled⟩
  · exact absurd set other

theorem handleBanoMsg_heard (result : handleBanoMsg linfo env b socket msg = some (err,b')) :
    Heard env socket (decMsg b msg) b b' := by
  obtain ⟨found,search,result⟩ := Option.bind_eq_some_iff.mp result
  cases found with
  | some node =>
    obtain ⟨_,handled,result⟩ := Option.bind_eq_some_iff.mp result
    obtain ⟨_,rfl⟩ := Prod.mk.inj (Option.some.inj result)
    by_cases set : (decMsg b msg).op = msgOpSet
    · obtain ⟨n,cell,calm⟩ := dispatch_cell set handled
      exact .known search cell set calm
    · exact .other (dispatch_calm set handled) fun set' => absurd set' set
  | none =>
    simp only at result
    split at result
    · next off =>
      obtain ⟨_,rfl⟩ := Prod.mk.inj (Option.some.inj result)
      exact .other (.refl _) fun _ => ⟨search,.inl off⟩
    next on =>
    split at result
    · next malloc =>
      rcases b.nodes.addTail_cases env.mallocNodeItem b.nodeMem.next with failed | ⟨nodes,added,entries,_⟩
      · have fails : env.mallocNodeItem = false := by
          cases item : env.mallocNodeItem with
          | false => rfl
          | true =>
            obtain ⟨_,added,_⟩ := b.nodes.addTail_true b.nodeMem.next
            rw [item,added] at failed
            simp at failed
        simp only [failed] at result
        obtain ⟨_,rfl⟩ := Prod.mk.inj (Option.some.inj result)
        exact .other (.refl _) fun _ => ⟨search,.inr (by simp [fails])⟩
      · simp only [added,ne_eq,not_true,if_false] at result
        obtain ⟨mid,called,result⟩ := Option.bind_eq_some_iff.mp result
        obtain ⟨_,handled,result⟩ := Option.bind_eq_some_iff.mp result
        obtain ⟨_,rfl⟩ := Prod.mk.inj (Option.some.inj result)
        have calm : Calm (registered b nodes (decMsg b msg).saddr socket) mid := callNodeFn_calm called
        refine .new search on entries (fun other => calm.trans (dispatch_calm other handled)) fun set => ?_
        obtain ⟨n,cell,stored⟩ := dispatch_cell set handled
        have here : (registered b nodes (decMsg b msg).saddr socket).nodeMem.cell b.nodeMem.next =
          some (banoNodeAlloc (decMsg b msg).saddr socket) := Heap.alloc_cell_next _ _
        exact (addPair_calm calm here cell env _).trans stored
    · next fails =>
      obtain ⟨_,rfl⟩ := Prod.mk.inj (Option.some.inj result)
      exact .other (.refl _) fun _ => ⟨search,.inr (by simp [fails])⟩

/-- What handle_bano_msg is called with when a message is read from a socket. -/
def snrfFrame (b : Base) (li : Ptr) (env : FrameEnv) (msg : BanoMsg) : Option (Ptr × FrameEnv × BanoMsg) := do
  let socket ← b.sockets.data li
  let k ← b.socketMem.cell socket
  if k.type = .snrf then some (socket,env,msg) else none

def Label.frame (s : Loop) : Label → Option (Ptr × FrameEnv × BanoMsg)
  | .peek li env msg => snrfFrame s.base li env msg
  | .read li env (.msg msg) => snrfFrame s.base li env msg
  | _ => none

/-- The faces of the nodes change as a frame makes them, or not at all. -/
def Hears (b b' : Base) : Option (Ptr × FrameEnv × BanoMsg) → Prop
  | some (socket,env,msg) => Heard env socket (decMsg b msg) b b'
  | none => Calm b b'

theorem readMsg_hears (result : readMsg linfo env b li (.msg msg) = some b') :
    Hears b b' (snrfFrame b li env msg) := by
  obtain ⟨socket,listed,result⟩ := Option.bind_eq_some_iff.mp result
  obtain ⟨k,live,result⟩ := Option.bind_eq_some_iff.mp result
  simp only at result
  split at result
  · next snrf =>
    obtain ⟨⟨err,mid⟩,handled,same⟩ := Option.bind_eq_some_iff.mp result
    obtain rfl := Option.some.inj same
    have frame : snrfFrame b li env msg = some (socket,env,msg) := by simp [snrfFrame,listed,live,snrf]
    rw [frame]
    exact handleBanoMsg_heard handled
  · next other =>
    have frame : snrfFrame b li env msg = none := by simp [snrfFrame,listed,live,other]
    rw [frame]
    exact Option.some.inj result ▸ .refl _

theorem idleStep_hears (taken : Loop.idleStep linfo label s = some s') : Hears s.base s'.base (label.frame s) := by
  cases label with
  | newNode li posts =>
    obtain ⟨b,called,rfl⟩ := bind_some.mp taken
    exact doNewNode_calm called
  | post p =>
    obtain ⟨b,posted,rfl⟩ := bind_some.mp taken
    exact (postNew_grows posted).calm
  | addTimer mallocTimer mallocItem =>
    show Calm s.base s'.base
    simp only [Loop.idleStep] at taken
    split at taken
    · obtain ⟨⟨timer,timers⟩,_,taken⟩ := Option.bind_eq_some_iff.mp taken
      simp only at taken
      split at taken <;> exact Option.some.inj taken ▸ calm_same rfl rfl rfl rfl rfl
    · exact Option.some.inj taken ▸ .refl _
  | peek li env msg =>
    obtain ⟨b,handled,rfl⟩ := bind_some.mp taken
    exact readMsg_hears handled
  | read li env outcome =>
    obtain ⟨b,handled,rfl⟩ := bind_some.mp taken
    cases outcome with
    | again =>
      obtain ⟨_,_,handled⟩ := Option.bind_eq_some_iff.mp handled
      obtain ⟨_,_,handled⟩ := Option.bind_eq_some_iff.mp handled
      exact Option.some.inj handled ▸ Calm.refl _
    | error =>
      obtain ⟨_,_,handled⟩ := Option.bind_eq_some_iff.mp handled
      obtain ⟨_,_,handled⟩ := Option.bind_eq_some_iff.mp handled
      obtain ⟨mid,freed,handled⟩ := Option.bind_eq_some_iff.mp handled
      obtain ⟨sockets,_,rfl⟩ := bind_some.mp handled
      exact (banoSocketFree_calm freed).trans (calm_same rfl rfl rfl rfl rfl)
    | msg msg => exact readMsg_hears handled
  | write li =>
    obtain ⟨node,_,taken⟩ := Option.bind_eq_some_iff.mp taken
    obtain ⟨n,_,rfl⟩ := bind_some.mp taken
    exact Calm.refl _
  | postIo env => simp [Loop.idleStep] at taken
  | select ready tv env => exact selectTimer_calm taken
  | selectFails => exact Option.some.inj taken ▸ Calm.refl _
  | close =>
    obtain ⟨b,closed,rfl⟩ := bind_some.mp taken
    exact banoClose_calm closed

/-- A step of the loop does to the faces what the frame that it reads does. -/
theorem step_hears (taken : Loop.step linfo label s = some s') : Hears s.base s'.base (label.frame s) := by
  unfold Loop.step at taken
  split at taken
  · exact idleStep_hears taken
  · obtain ⟨n,_,taken⟩ := Option.bind_eq_some_iff.mp taken
    obtain ⟨next,_,taken⟩ := Option.bind_eq_some_iff.mp taken
    obtain ⟨b,written,rfl⟩ := bind_some.mp taken
    exact postIo_calm written
  · obtain ⟨b,closed,rfl⟩ := bind_some.mp taken
    exact banoClose_calm closed
  · exact nomatch taken

/-- A step reads no frame and leaves the faces, or it reads one. -/
theorem step_heard (taken : Loop.step linfo label s = some s') : label.frame s = none ∧ Calm s.base s'.base ∨
    ∃ socket env msg, label.frame s = some (socket,env,msg) ∧
      Heard env socket (decMsg s.base msg) s.base s'.base := by
  have hears := step_hears taken
  cases frame : label.frame s with
  | none =>
    rw [frame] at hears
    exact .inl ⟨rfl,hears⟩
  | some heard =>
    rw [frame] at hears
    exact .inr ⟨_,_,_,rfl,hears⟩

theorem snrfFrame_handled (frame : snrfFrame b li env' msg' = some (socket,env,msg))
    (result : readMsg linfo env' b li (.msg msg') = some b') :
    ∃ ret, handleBanoMsg linfo env b socket msg = some (ret,b') := by
  obtain ⟨socket',listed,frame⟩ := Option.bind_eq_some_iff.mp frame
  obtain ⟨k,live,frame⟩ := Option.bind_eq_some_iff.mp frame
  split at frame
  · next snrf =>
    obtain ⟨rfl,rfl,rfl⟩ : socket' = socket ∧ env' = env ∧ msg' = msg := by simpa using frame
    simp only [readMsg,listed,live,snrf,Option.bind_eq_bind,Option.bind_some,if_true] at result
    obtain ⟨⟨ret,mid⟩,handled,same⟩ := Option.bind_eq_some_iff.mp result
    obtain rfl := Option.some.inj same
    exact ⟨ret,handled⟩
  · exact nomatch frame

/-- A step that reads a frame is a call of handle_bano_msg. -/
theorem step_frame (frame : label.frame s = some (socket,env,msg)) (taken : Loop.step linfo label s = some s') :
    ∃ ret, handleBanoMsg linfo env s.base socket msg = some (ret,s'.base) := by
  have idle : Loop.idleStep linfo label s = some s' := by
    unfold Loop.step at taken
    split at taken
    · exact taken
    · exact nomatch frame
    · exact nomatch frame
    · exact nomatch taken
  cases label with
  | peek li env' msg' =>
    obtain ⟨b,handled,rfl⟩ := bind_some.mp idle
    exact snrfFrame_handled frame handled
  | read li env' outcome =>
    obtain ⟨b,handled,rfl⟩ := bind_some.mp idle
    cases outcome with
    | again | error => exact nomatch frame
    | msg msg' => exact snrfFrame_handled frame handled
  | _ => exact nomatch frame

end Bano
