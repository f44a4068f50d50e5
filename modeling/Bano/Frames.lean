import Bano.Posting
import Bano.Release

/-! What the handling of a frame does to the base, case by case. -/
namespace Bano

open Lib

/-- A traversal that stops at the first entry to pass a test. -/
theorem visit_find {fn : Ptr → α → Option τ → Option (Int × Option τ)} (test : Ptr × α → Bool)
    (pick : Ptr × α → τ)
    (step : ∀ e ∈ xs, ∀ p, fn e.1 e.2 p = some (if test e then (-1,some (pick e)) else (0,p))) :
    ∃ err, visit fn xs p = some (err,((xs.find? test).map pick).or p) := by
  induction xs with
  | nil => exact ⟨0,rfl⟩
  | cons e xs ih =>
    have rest := ih fun d member => step d (List.mem_cons_of_mem _ member)
    by_cases here : test e
    · exact ⟨-1,by simp [visit,step,here]⟩
    · simpa [visit,step,here] using rest

/-- What any traversal can pass on: what it was given, or what it found at an entry. -/
theorem visit_found {fn : Ptr → α → Option τ → Option (Int × Option τ)} {P : Ptr × α → τ → Prop}
    (step : ∀ e ∈ xs, ∀ p err p', fn e.1 e.2 p = some (err,p') → p' = p ∨ ∃ found, p' = some found ∧ P e found)
    (result : visit fn xs p = some (err,p')) : p' = p ∨ ∃ e ∈ xs, ∃ found, p' = some found ∧ P e found := by
  induction xs generalizing p with
  | nil => exact .inl (Prod.mk.inj (Option.some.inj result)).2.symm
  | cons e xs ih =>
    obtain ⟨⟨stop,mid⟩,called,rest⟩ := Option.bind_eq_some_iff.mp result
    have later := fun d member => step d (List.mem_cons_of_mem _ member)
    have after : p' = mid ∨ ∃ e ∈ xs, ∃ found, p' = some found ∧ P e found := by
      by_cases stopped : stop = 0
      · exact ih later (by simpa [stopped] using rest)
      · exact .inl (by simpa [stopped,eq_comm] using rest : _ ∧ _).2
    rcases after with rfl | ⟨d,member,found⟩
    · rcases step e List.mem_cons_self _ _ _ called with same | found
      · exact .inl same
      · exact .inr ⟨e,List.mem_cons_self,found⟩
    · exact .inr ⟨d,List.mem_cons_of_mem _ member,found⟩

def hasAddr (b : Base) (addr : U32) (e : Ptr × Ptr) : Bool := (b.nodeMem.cell e.2).any fun n => n.addr = addr

theorem findNodeByAddr_eq (addr : U32) (live : ∀ e ∈ b.nodes.entries, ∃ n, b.nodeMem.cell e.2 = some n) :
    findNodeByAddr b addr = some ((b.nodes.entries.find? (hasAddr b addr)).map Prod.snd) := by
  have step : ∀ e ∈ b.nodes.entries, ∀ p, cmpNodeAddr b addr e.1 e.2 p =
      some (if hasAddr b addr e then (-1,some e.2) else (0,p)) := by
    intro e member p
    obtain ⟨n,cell⟩ := live e member
    by_cases same : n.addr = addr <;> simp [cmpNodeAddr,hasAddr,cell,same]
  obtain ⟨err,found⟩ := visit_find (p := none) (hasAddr b addr) Prod.snd step
  simp [findNodeByAddr,LinkedList.foreach_visit,found]

theorem findNodeByAddr_mem (result : findNodeByAddr b addr = some (some node)) :
    (∃ li, (li,node) ∈ b.nodes.entries) ∧ ∃ n, b.nodeMem.cell node = some n ∧ n.addr = addr := by
  obtain ⟨⟨err,found⟩,visited,same⟩ := Option.bind_eq_some_iff.mp result
  obtain rfl := Option.some.inj same
  rw [LinkedList.foreach_visit] at visited
  have step : ∀ e ∈ b.nodes.entries, ∀ p err p', cmpNodeAddr b addr e.1 e.2 p = some (err,p') →
      p' = p ∨ ∃ found, p' = some found ∧ (found = e.2 ∧ ∃ n, b.nodeMem.cell e.2 = some n ∧ n.addr = addr) := by
    intro e _ p err p' called
    obtain ⟨n,cell,called⟩ := Option.bind_eq_some_iff.mp called
    by_cases same : n.addr = addr
    · simp only [same,ne_eq,not_true,if_false,Option.some.injEq,Prod.mk.injEq] at called
      exact .inr ⟨e.2,called.2.symm,rfl,n,cell,same⟩
    · simp only [same,ne_eq,not_false_eq_true,if_true,Option.some.injEq,Prod.mk.injEq] at called
      exact .inl called.2.symm
  rcases visit_found step visited with absurd | ⟨e,member,_,same,rfl,n,cell,addrEq⟩
  · simp at absurd
  · obtain rfl := Option.some.inj same
    exact ⟨⟨e.1,member⟩,n,cell,addrEq⟩

/-- The frame answers the io of the entry. -/
def isAnswered (b : Base) (msg : BanoMsg) (e : Ptr × Ptr) : Bool :=
  (b.ioMem.cell e.2).any fun r => msg.answers r.msg

theorem findPendingIo_eq (msg : BanoMsg) (cell : b.nodeMem.cell node = some n) (source : n.addr = msg.saddr)
    (live : ∀ e ∈ n.pendingIos.entries, ∃ r, b.ioMem.cell e.2 = some r) :
    n.pendingIos.entries.find? (isAnswered b msg) = none ∧ findPendingIo b node msg = some (none,b) ∨
    ∃ li io pending, n.pendingIos.entries.find? (isAnswered b msg) = some (li,io) ∧
      n.pendingIos.del li = some pending ∧
      findPendingIo b node msg = some (some io,b.setNode node { n with pendingIos := pending }) := by
  have step : ∀ e ∈ n.pendingIos.entries, ∀ p, cmpPendingIo b n msg e.1 e.2 p =
      some (if isAnswered b msg e then (-1,some (id e)) else (0,p)) := by
    intro e member p
    obtain ⟨r,cell⟩ := live e member
    by_cases answers : msg.answers r.msg <;> simp [cmpPendingIo,isAnswered,source,cell,answers]
  obtain ⟨err,found⟩ := visit_find (p := none) (isAnswered b msg) id step
  cases first : n.pendingIos.entries.find? (isAnswered b msg) with
  | none =>
    left
    simp only [first,Option.map_none,Option.none_or] at found
    simp [findPendingIo,cell,LinkedList.foreach_visit,found]
  | some e =>
    right
    simp only [first,Option.map_some,id_eq,Option.some_or] at found
    obtain ⟨pending,removed⟩ := LinkedList.del_mem (List.mem_of_find?_eq_some first)
    refine ⟨e.1,e.2,pending,rfl,removed,?_⟩
    simp [findPendingIo,cell,LinkedList.foreach_visit,found,removed]

theorem findPendingIo_cases (result : findPendingIo b node msg = some (found,b')) :
    ∃ n, b.nodeMem.cell node = some n ∧ (found = none ∧ b' = b ∨
      ∃ li io r pending, found = some io ∧ (li,io) ∈ n.pendingIos.entries ∧ b.ioMem.cell io = some r ∧
        msg.answers r.msg = true ∧ n.pendingIos.del li = some pending ∧
        b' = b.setNode node { n with pendingIos := pending }) := by
  obtain ⟨n,cell,result⟩ := Option.bind_eq_some_iff.mp result
  obtain ⟨⟨err,met⟩,visited,result⟩ := Option.bind_eq_some_iff.mp result
  rw [LinkedList.foreach_visit] at visited
  have step : ∀ e ∈ n.pendingIos.entries, ∀ p err p', cmpPendingIo b n msg e.1 e.2 p = some (err,p') →
      p' = p ∨ ∃ met, p' = some met ∧ (met = e ∧ ∃ r, b.ioMem.cell e.2 = some r ∧ msg.answers r.msg = true) := by
    intro e _ p err p' called
    unfold cmpPendingIo at called
    split at called
    · exact .inl (Prod.mk.inj (Option.some.inj called)).2.symm
    · obtain ⟨r,live,called⟩ := Option.bind_eq_some_iff.mp called
      split at called
      · next answers => exact .inr ⟨e,(Prod.mk.inj (Option.some.inj called)).2.symm,rfl,r,live,answers⟩
      · exact .inl (Prod.mk.inj (Option.some.inj called)).2.symm
  refine ⟨n,cell,?_⟩
  rcases visit_found step visited with rfl | ⟨e,member,met,rfl,same,r,live,answers⟩
  · left
    obtain ⟨rfl,rfl⟩ := Prod.mk.inj (Option.some.inj result)
    exact ⟨rfl,rfl⟩
  · right
    subst same
    obtain ⟨pending,removed,result⟩ := Option.bind_eq_some_iff.mp result
    obtain ⟨rfl,rfl⟩ := Prod.mk.inj (Option.some.inj result)
    exact ⟨met.1,met.2,r,pending,rfl,member,live,answers,removed,rfl⟩

/-- The key of a SET that is stored: any, or those of the description. -/
def stores (n : BanoNode) (msg : BanoMsg) : Bool :=
  !msg.has msgFlagErr && n.nodl.all fun nodl => (banoNodlFindKey nodl msg.key).isSome

/-- The key is described as one to notify. -/
def notifies (n : BanoNode) (msg : BanoMsg) : Bool :=
  !msg.has msgFlagErr && n.nodl.any fun nodl =>
    (banoNodlFindKey nodl msg.key).any fun kv => kv.flags &&& nodlFlagNotif ≠ 0

/-- The pairs of the node once the SET is stored. -/
def storedPairs (env : FrameEnv) (n : BanoNode) (msg : BanoMsg) : Store NodeVal :=
  if stores n msg then
    (n.keyvalPairs.setOrAdd env.mallocPair env.mallocPairItem env.junk (msg.key.setWidth 32) ⟨msg.val,env.sec⟩).2
  else n.keyvalPairs

theorem setNode_same {b : Base} (cell : b.nodeMem.cell node = some n) : b.setNode node n = b := by
  have same : b.nodeMem.modify node (fun _ => n) = b.nodeMem := by
    refine Heap.ext rfl fun p => ?_
    by_cases here : p = node
    · subst here
      simp [cell]
    · simp [here]
  simp [Base.setNode,same]

theorem addPair_stores : addPair env b node n msg =
    if stores n msg then setPair env (if notifies n msg then b.emit (.sms msg.val) else b) node n msg else b := by
  unfold addPair stores notifies
  cases msg.has msgFlagErr with
  | true => simp
  | false =>
    cases n.nodl with
    | none => simp
    | some nodl =>
      cases key : banoNodlFindKey nodl msg.key with
      | none => simp [key]
      | some kv => simp [key]

/-- A key that is not stored is not notified. -/
theorem stores_of_notifies (sends : notifies n msg = true) : stores n msg = true := by
  simp only [notifies,stores,Bool.and_eq_true] at sends ⊢
  refine ⟨sends.1,?_⟩
  cases nodl : n.nodl with
  | none => rfl
  | some nodl' =>
    cases key : banoNodlFindKey nodl' msg.key with
    | none => simp [nodl,key] at sends
    | some kv => simp [key]

theorem addPair_eq {b : Base} (cell : b.nodeMem.cell node = some n) : addPair env b node n msg =
    { b.setNode node { n with keyvalPairs := storedPairs env n msg } with
      trace := b.trace ++ if notifies n msg then [.sms msg.val] else [] } := by
  rw [addPair_stores]
  by_cases stored : stores n msg = true
  · by_cases sends : notifies n msg = true <;> simp [storedPairs,stored,sends,setPair,Base.setNode,Base.emit]
  · have silent : notifies n msg ≠ true := fun sends => stored (stores_of_notifies sends)
    have same : b.setNode node { n with keyvalPairs := n.keyvalPairs } = b := setNode_same cell
    simp [storedPairs,stored,silent,same]

/-- The base when the completion function, if there is one, has been called. -/
def completed (b : Base) (io : Ptr) (r : BanoIo) (f : BanoIo → BanoIo) : Base :=
  if r.complFn.isSome then (b.setIo io (f r)).emit (.completed io (f r).complErr (f r).complVal) else b

theorem completed_nodeMem (b : Base) (io : Ptr) (r : BanoIo) (f : BanoIo → BanoIo) :
    (completed b io r f).nodeMem = b.nodeMem := by
  unfold completed
  split <;> rfl

theorem completed_timers (b : Base) (io : Ptr) (r : BanoIo) (f : BanoIo → BanoIo) :
    (completed b io r f).timers = b.timers := by
  unfold completed
  split <;> rfl

/-- The event of the call, if there is one. -/
def completion (io : Ptr) (r : BanoIo) (f : BanoIo → BanoIo) : List Event :=
  if r.complFn.isSome then [.completed io (f r).complErr (f r).complVal] else []

theorem completed_trace (b : Base) (io : Ptr) (r : BanoIo) (f : BanoIo → BanoIo) :
    (completed b io r f).trace = b.trace ++ completion io r f := by
  unfold completed completion
  split <;> simp [Base.emit,Base.setIo]

theorem completed_cell {b : Base} (cell : b.ioMem.cell io = some r) :
    ∃ r', (completed b io r f).ioMem.cell io = some r' := by
  unfold completed
  split
  · exact ⟨f r,by simp [Base.emit,Base.setIo,cell]⟩
  · exact ⟨r,cell⟩

/-- What its callback then does is to post. -/
theorem complete_posts {b : Base} (cell : b.ioMem.cell io = some r)
    (result : completeIo b io r f posts = some b') :
    ∃ posts', runPosts posts' (completed b io r f) = some b' := by
  unfold completed
  unfold completeIo at result
  split at result
  · next called =>
    rw [if_pos called]
    exact ⟨posts,by simpa [complete,cell] using result⟩
  · next silent =>
    rw [if_neg silent]
    exact ⟨[],result⟩

theorem complete_some {b : Base} (cell : b.ioMem.cell io = some r) (targets : PostsTo b posts) :
    ∃ b', completeIo b io r f posts = some b' := by
  unfold completeIo
  split
  · have targets' : PostsTo ((b.setIo io (f r)).emit (.completed io (f r).complErr (f r).complVal)) posts := targets
    obtain ⟨b',posted⟩ := runPosts_some targets'
    exact ⟨b',by simpa [complete,cell] using posted⟩
  · exact ⟨b,rfl⟩

/-- The base when the io has left the pending ios and completed. -/
def answered (b : Base) (node : Ptr) (n : BanoNode) (pending : LinkedList Ptr) (msg : BanoMsg) (io : Ptr)
    (r : BanoIo) : Base :=
  completed ((b.setNode node { n with pendingIos := pending }).emit (.answered io msg)) io r (answerIo msg)

/-- The io is answered: it leaves the pending ios, completes, and is released with its timer. -/
structure Answer (b : Base) (node : Ptr) (n : BanoNode) (msg : BanoMsg) (io : Ptr) (b' : Base) where
  li : Ptr
  r : BanoIo
  pending : LinkedList Ptr
  posts : List Post
  mid : Base
  t : Ptr
  timers : TimerQueue
  listed : (li,io) ∈ n.pendingIos.entries
  cell : b.ioMem.cell io = some r
  answers : msg.answers r.msg = true
  removed : n.pendingIos.del li = some pending
  called : runPosts posts (answered b node n pending msg io r) = some mid
  timer : r.timer = some t
  stopped : banoTimerDel mid.timers t = some timers
  final : banoFreeIo { mid with timers := timers } io = some b'

theorem handleSetMsg_cases (result : handleSetMsg linfo env b msg node = some b') :
    ∃ n, b.nodeMem.cell node = some n ∧
      ((∃ posts es, runPosts posts { addPair env b node n msg with
        trace := (addPair env b node n msg).trace ++ es } = some b' ∧
          (es = [] ∨ es = [.setFn node msg.key msg.val]) ∧ msg.has msgFlagReply = false) ∨
        msg.has msgFlagReply = true ∧
          (findPendingIo (addPair env b node n msg) node msg = some (none,b') ∧ b' = addPair env b node n msg ∨
          ∃ m io, (addPair env b node n msg).nodeMem.cell node = some m ∧
            Nonempty (Answer (addPair env b node n msg) node m msg io b'))) := by
  obtain ⟨n,cell,result⟩ := Option.bind_eq_some_iff.mp result
  refine ⟨n,cell,?_⟩
  by_cases reply : msg.has msgFlagReply = true
  · right
    refine ⟨reply,?_⟩
    rw [if_pos reply] at result
    obtain ⟨⟨found,b1⟩,search,result⟩ := Option.bind_eq_some_iff.mp result
    obtain ⟨m,here,⟨rfl,rfl⟩ | ⟨li,io,r,pending,rfl,listed,live,answers,removed,rfl⟩⟩ :=
      findPendingIo_cases search
    · obtain rfl := Option.some.inj result
      exact .inl ⟨search,rfl⟩
    · right
      refine ⟨m,io,here,?_⟩
      obtain ⟨r',live',result⟩ := Option.bind_eq_some_iff.mp result
      obtain rfl := Option.some.inj (live.symm.trans live')
      obtain ⟨mid,called,result⟩ := Option.bind_eq_some_iff.mp result
      obtain ⟨t,timer,result⟩ := Option.bind_eq_some_iff.mp result
      obtain ⟨timers,stopped,result⟩ := Option.bind_eq_some_iff.mp result
      obtain ⟨posts,posted⟩ := complete_posts live' called
      exact ⟨⟨li,r,pending,posts,mid,t,timers,listed,live,answers,removed,posted,timer,stopped,result⟩⟩
  · left
    rw [if_neg reply] at result
    split at result
    · exact ⟨env.posts,_,result,.inr rfl,by simpa using reply⟩
    · exact ⟨[],[],by simpa [runPosts] using result,.inl rfl,by simpa using reply⟩

theorem handleSetMsg_some {b : Base} (linfo : LoopInfo) (cell : b.nodeMem.cell node = some n)
    (source : n.addr = msg.saddr)
    (live : ∀ e ∈ n.pendingIos.entries, ∃ r t timers, b.ioMem.cell e.2 = some r ∧ r.timer = some t ∧
      banoTimerDel b.timers t = some timers)
    (targets : PostsTo b env.posts) : ∃ b', handleSetMsg linfo env b msg node = some b' := by
  have added : addPair env b node n msg = _ := addPair_eq cell
  have mem : (addPair env b node n msg).nodeMem =
      b.nodeMem.modify node fun _ => { n with keyvalPairs := storedPairs env n msg } := by rw [added]; rfl
  have ios : (addPair env b node n msg).ioMem = b.ioMem := by rw [added]; rfl
  have timers : (addPair env b node n msg).timers = b.timers := by rw [added]; rfl
  have here : (addPair env b node n msg).nodeMem.cell node =
      some { n with keyvalPairs := storedPairs env n msg } := by
    simp [mem,cell]
  have targets' : ∀ b', b'.nodeMem.cell node ≠ none → (∀ p, p ≠ node → b'.nodeMem.cell p = b.nodeMem.cell p) →
      PostsTo b' env.posts := by
    intro b' atNode elsewhere p member
    by_cases same : p.node = node
    · rw [same]
      exact Option.ne_none_iff_exists'.mp atNode
    · rw [elsewhere p.node same]
      exact targets p member
  simp only [handleSetMsg,cell,Option.bind_eq_bind,Option.bind_some]
  by_cases reply : msg.has msgFlagReply = true
  · rw [if_pos reply]
    have live' : ∀ e ∈ n.pendingIos.entries, ∃ r, (addPair env b node n msg).ioMem.cell e.2 = some r := by
      intro e member
      obtain ⟨r,_,_,cell,_⟩ := live e member
      exact ⟨r,ios ▸ cell⟩
    rcases findPendingIo_eq msg here source live' with ⟨_,search⟩ | ⟨li,io,pending,first,removed,search⟩
    · exact ⟨_,by rw [search]; rfl⟩
    · obtain ⟨r,t,q,ioCell,timer,stopped⟩ := live (li,io) (List.mem_of_find?_eq_some first)
      let b1 := ((addPair env b node n msg).setNode node
        { n with keyvalPairs := storedPairs env n msg, pendingIos := pending }).emit (.answered io msg)
      have ioCell' : b1.ioMem.cell io = some r := ios ▸ ioCell
      have ready : PostsTo b1 env.posts := targets' b1 (by simp [b1,Base.emit,Base.setNode,here])
        fun p other => by simp [b1,Base.emit,Base.setNode,mem,other]
      obtain ⟨mid,called⟩ := complete_some (f := answerIo msg) ioCell' ready
      obtain ⟨posts,posted⟩ := complete_posts ioCell' called
      have grows := runPosts_grows posted
      obtain ⟨r',ioCell''⟩ := completed_cell (f := answerIo msg) ioCell'
      have ioLive : mid.ioMem.cell io = some r' := by rw [grows.io io (Heap.lt_next ioCell''),ioCell'']
      have stopped' : banoTimerDel mid.timers t = some q := by
        rw [grows.timers,completed_timers]
        exact timers ▸ stopped
      refine ⟨Base.emit { mid with timers := q, ioMem := mid.ioMem.erase io } (.released io),?_⟩
      have freed := Heap.free_live ioLive
      rw [search]
      show (b1.ioMem.cell io).bind _ = _
      simp only [ioCell',Option.bind_some]
      show (completeIo b1 io r (answerIo msg) env.posts).bind _ = _
      simp [called,timer,stopped',banoFreeIo,freed]
  · rw [if_neg reply]
    split
    · exact runPosts_some (targets' _ (by simp [Base.emit,here]) fun p other => by simp [Base.emit,mem,other])
    · exact ⟨_,rfl⟩

theorem dispatch_cases (result : dispatch linfo env b msg node = some b') :
    msg.op = msgOpSet ∧ handleSetMsg linfo env b msg node = some b' ∨
    msg.op ≠ msgOpSet ∧ ∃ posts es, runPosts posts { b with trace := b.trace ++ es } = some b' ∧
      (es = [] ∨ msg.op = msgOpGet ∧ es = [.getFn node msg.key]) := by
  unfold dispatch at result
  split at result
  · next set => exact .inl ⟨set,result⟩
  · next other =>
    right
    refine ⟨other,?_⟩
    split at result
    · next get =>
      unfold handleGetMsg at result
      split at result
      · exact ⟨env.posts,_,result,.inr ⟨get,rfl⟩⟩
      · exact ⟨[],[],by simpa [runPosts] using result,.inl rfl⟩
    · exact ⟨[],[],by simpa [runPosts] using result,.inl rfl⟩

/-- A frame from an address that is not known adds a node, when the base takes new nodes. -/
theorem handleBanoMsg_cases (result : handleBanoMsg linfo env b socket msg = some (err,b')) :
    b' = b ∨
    (∃ node, findNodeByAddr b (decMsg b msg).saddr = some (some node) ∧
      dispatch linfo env b (decMsg b msg) node = some b') ∨
    ∃ nodes mid posts es, nodes.entries = b.nodes.entries ++ [(b.nodes.nextItem,b.nodeMem.next)] ∧
      runPosts posts { b with
        nodes := nodes
        nodeMem := b.nodeMem.alloc (banoNodeAlloc (decMsg b msg).saddr socket)
        trace := b.trace ++ es } = some mid ∧
      (es = [] ∨ es = [.newNode b.nodeMem.next]) ∧
      dispatch linfo env mid (decMsg b msg) b.nodeMem.next = some b' := by
  obtain ⟨found,search,result⟩ := Option.bind_eq_some_iff.mp result
  cases found with
  | some node =>
    obtain ⟨_,handled,result⟩ := Option.bind_eq_some_iff.mp result
    obtain ⟨_,rfl⟩ := Prod.mk.inj (Option.some.inj result)
    exact .inr (.inl ⟨node,search,handled⟩)
  | none =>
    simp only at result
    split at result
    · exact .inl (Prod.mk.inj (Option.some.inj result)).2.symm
    split at result
    · rcases b.nodes.addTail_cases env.mallocNodeItem b.nodeMem.next with failed | ⟨nodes,added,entries,_⟩
      · simp only [failed] at result
        exact .inl (Prod.mk.inj (Option.some.inj result)).2.symm
      · simp only [added,ne_eq,not_true,if_false] at result
        obtain ⟨mid,called,result⟩ := Option.bind_eq_some_iff.mp result
        obtain ⟨_,handled,result⟩ := Option.bind_eq_some_iff.mp result
        obtain ⟨_,rfl⟩ := Prod.mk.inj (Option.some.inj result)
        right; right
        unfold callNodeFn at called
        split at called
        · exact ⟨nodes,mid,env.nodePosts,_,entries,called,.inr rfl,handled⟩
        · exact ⟨nodes,mid,[],[],entries,by simpa [runPosts] using called,.inl rfl,handled⟩
    · exact .inl (Prod.mk.inj (Option.some.inj result)).2.symm

theorem or_enc : ∀ flags : BitVec 6, (flags ||| msgFlagEnc) &&& msgFlagEnc ≠ 0 := by decide

theorem has_or (m : BanoMsg) : ({ m with flags := m.flags ||| msgFlagEnc } : BanoMsg).has msgFlagEnc = true :=
  decide_eq_true (or_enc m.flags)

/-- What is written is read back. -/
theorem decMsg_encMsg (b : Base) (n : BanoNode) {m : BanoMsg} (clear : m.has msgFlagEnc = false) :
    decMsg b (encMsg b n m) = { m with flags := if n.ciphers then m.flags ||| msgFlagEnc else m.flags } := by
  by_cases ciphers : n.ciphers = true
  · let e : BanoMsg := m.withBody (banoCipherEnc b.cipher m.body).2
    have body : ({ e with flags := e.flags ||| msgFlagEnc } : BanoMsg).body = (banoCipherEnc b.cipher m.body).2 :=
      body_withBody m _
    rw [encMsg,if_pos ciphers,decMsg]
    show (if ({ e with flags := e.flags ||| msgFlagEnc } : BanoMsg).has msgFlagEnc = true then _ else _) = _
    rw [has_or,if_pos rfl]
    show ({ e with flags := e.flags ||| msgFlagEnc } : BanoMsg).withBody
      (banoCipherDec b.cipher ({ e with flags := e.flags ||| msgFlagEnc } : BanoMsg).body).2 = _
    rw [body,banoCipherDec_enc,withBody_body,if_pos ciphers]
    rfl
  · rw [encMsg,if_neg ciphers,decMsg,clear,if_neg ciphers]
    simp

end Bano
