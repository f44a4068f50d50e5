import Bano.Frames
import Bano.Setup
import Bano.TimerDeletion

/-! Clear frames in the name of a node that is configured to cipher. The base looks at the clear
byte of a frame only, never at the configuration of its node. -/
namespace Bano

open Lib

structure ClearFrame (b : Base) (node : Ptr) (n : BanoNode) (msg : BanoMsg) : Prop where
  alg : b.cipher.alg = .xtea
  listed : node ∈ b.nodes.entries.map Prod.snd
  cell : b.nodeMem.cell node = some n
  ciphers : n.ciphers = true
  clear : msg.has msgFlagEnc = false
  source : msg.saddr = n.addr

/-- An SMS, or the completion of a pending io of the node. -/
def Event.touches (n : BanoNode) : Event → Prop
  | .sms _ => True
  | .completed io _ _ => io ∈ n.pendingIos.entries.map Prod.snd
  | _ => False

structure Untouched (b b' : Base) (node : Ptr) (n : BanoNode) : Prop where
  kept : ∃ n', b'.nodeMem.cell node = some n' ∧ (∀ k, n'.keyvalPairs.lookup k = n.keyvalPairs.lookup k) ∧
    n'.pendingIos = n.pendingIos
  quiet : ∃ es, b'.trace = b.trace ++ es ∧ ∀ e ∈ es, ¬e.touches n

/-- The SET is not stored, or rewrites what is stored, or finds no memory. -/
def KeepsPairs (env : FrameEnv) (n : BanoNode) (msg : BanoMsg) : Prop :=
  stores n msg = true → n.keyvalPairs.lookup (msg.key.setWidth 32) = some ⟨msg.val,env.sec⟩ ∨
    n.keyvalPairs.lookup (msg.key.setWidth 32) = none ∧ (env.mallocPair && env.mallocPairItem) = false

/-- The frame is no SET, or one that is not notified and neither stored nor an answer to an io. -/
def Ignored (env : FrameEnv) (b : Base) (node : Ptr) (n : BanoNode) (msg : BanoMsg) : Prop :=
  msg.op = msgOpSet → ∃ dest m, findNodeByAddr b msg.saddr = some (some dest) ∧ b.nodeMem.cell dest = some m ∧
    notifies m msg = false ∧
    (dest = node → KeepsPairs env n msg ∧
      (msg.has msgFlagReply = true → ∀ e ∈ n.pendingIos.entries, isAnswered b msg e = false))

theorem storedPairs_lookup : (∀ k, (storedPairs env n msg).lookup k = n.keyvalPairs.lookup k) ↔
    KeepsPairs env n msg := by
  unfold storedPairs KeepsPairs
  by_cases stored : stores n msg = true
  · simp only [stored,if_true,Store.lookup_setOrAdd,forall_const]
    constructor
    · intro same
      have here := same (msg.key.setWidth 32)
      cases held : n.keyvalPairs.lookup (msg.key.setWidth 32) with
      | none =>
        cases fails : env.mallocPair && env.mallocPairItem with
        | false => exact .inr ⟨rfl,rfl⟩
        | true => simp only [held,fails,true_and,true_or,if_true,reduceCtorEq] at here
      | some v =>
        left
        rw [← held,← here,if_pos ⟨rfl,.inr (by simp [held])⟩]
    · rintro (held | ⟨missing,fails⟩) k
      · split
        · next both => rw [both.1,held]
        · rfl
      · rw [if_neg]
        rintro ⟨_,enough | bound⟩
        · simp [fails] at enough
        · exact bound missing
  · simp [stored]

theorem untouched_iff {b b' : Base} (cell : mid.nodeMem.cell node = some m) (before : mid.trace = b.trace ++ es)
    (grows : Grows mid mid') (nodes : b'.nodeMem = mid'.nodeMem) (after : b'.trace = mid'.trace ++ fs) :
    Untouched b b' node n ↔ (∀ k, m.keyvalPairs.lookup k = n.keyvalPairs.lookup k) ∧
      m.pendingIos = n.pendingIos ∧ ∀ e ∈ es ++ fs, ¬e.touches n := by
  obtain ⟨m',cell',same,_⟩ := grows.node node m cell
  have pairs : m'.keyvalPairs = m.keyvalPairs := by rw [same]
  have pending : m'.pendingIos = m.pendingIos := by rw [same]
  obtain ⟨ps,posted,fresh⟩ := grows.trace
  have trace : b'.trace = b.trace ++ (es ++ (ps ++ fs)) := by
    rw [after,posted,before]; simp only [List.append_assoc]
  have silent : ∀ e ∈ ps, ¬e.touches n := by
    intro e member
    obtain ⟨_,_,_,rfl,_⟩ := fresh e member
    exact id
  constructor
  · rintro ⟨⟨n',cell'',lookups,same'⟩,gs,trace',quiet⟩
    obtain rfl := Option.some.inj (cell'.symm.trans (nodes ▸ cell''))
    obtain rfl := List.append_cancel_left (trace.symm.trans trace')
    refine ⟨fun k => pairs ▸ lookups k,pending ▸ same',fun e member => quiet e ?_⟩
    simp only [List.mem_append] at member ⊢
    tauto
  · rintro ⟨lookups,same',quiet⟩
    refine ⟨⟨m',nodes ▸ cell',fun k => pairs ▸ lookups k,pending ▸ same'⟩,_,trace,fun e member => ?_⟩
    simp only [List.mem_append] at member quiet
    rcases member with early | between | late
    · exact quiet e (.inl early)
    · exact silent e between
    · exact quiet e (.inr late)

theorem Consistent.stops {b : Base} (consistent : Consistent b) (listed : e ∈ b.nodes.entries)
    (cell : b.nodeMem.cell e.2 = some n) : ∀ i ∈ n.pendingIos.entries, ∃ r t timers,
      b.ioMem.cell i.2 = some r ∧ r.timer = some t ∧ banoTimerDel b.timers t = some timers := by
  intro i member
  obtain ⟨r,live,_⟩ := consistent.io e listed n cell i (List.mem_append_right _ member)
  obtain ⟨d,queued,timer⟩ := consistent.timed e listed n cell i member r live
  obtain ⟨timers,_,stopped,_⟩ := banoTimerDel_some consistent.queued queued
  exact ⟨r,d.2,timers,live,timer,stopped⟩

theorem addPair_cell {b : Base} (env : FrameEnv) (msg : BanoMsg) (cell : b.nodeMem.cell node = some n)
    (cell' : b.nodeMem.cell dest = some m) :
    ∃ n', (addPair env b dest m msg).nodeMem.cell node = some n' ∧ n'.pendingIos = n.pendingIos ∧
      ((∀ k, n'.keyvalPairs.lookup k = n.keyvalPairs.lookup k) ↔ (dest = node → KeepsPairs env n msg)) := by
  rw [addPair_eq cell']
  by_cases same : dest = node
  · subst same
    obtain rfl := Option.some.inj (cell.symm.trans cell')
    exact ⟨{ n with keyvalPairs := storedPairs env n msg },by simp [Base.setNode,cell],rfl,
      by simp [storedPairs_lookup]⟩
  · have other : node ≠ dest := fun eq => same eq.symm
    exact ⟨n,by simp [Base.setNode,other,cell],rfl,by simp [same]⟩

theorem sms_quiet (others : ∀ e ∈ fs, ¬Event.touches n e) :
    (∀ e ∈ (if notifies m msg = true then [Event.sms msg.val] else []) ++ fs, ¬e.touches n) ↔
      notifies m msg = false := by
  cases sends : notifies m msg with
  | false => simpa using others
  | true =>
    simp only [if_true,List.singleton_append,reduceCtorEq,iff_false]
    intro quiet
    exact quiet _ List.mem_cons_self trivial

/-- A frame that completes an io of its node. -/
theorem answer_untouched_iff {b b' : Base} (answer : Answer mid dest m msg io b')
    (cell : mid.nodeMem.cell node = some n')
    (before : mid.trace = b.trace ++ es) (pending : n'.pendingIos = n.pendingIos)
    (own : dest = node → m.pendingIos = n.pendingIos)
    (others : dest ≠ node → ∀ i ∈ n.pendingIos.entries, i.2 ≠ io) :
    Untouched b b' node n ↔ (∀ k, n'.keyvalPairs.lookup k = n.keyvalPairs.lookup k) ∧ dest ≠ node ∧
      ∀ e ∈ es, ¬e.touches n := by
  have grows := runPosts_grows answer.called
  have final := (banoFreeIo_cases answer.final).1
  have nodes : b'.nodeMem = answer.mid.nodeMem := (congrArg Base.nodeMem final).trans rfl
  have traced : b'.trace = answer.mid.trace ++ [.released io] := (congrArg Base.trace final).trans rfl
  let after := [Event.answered io msg] ++ completion io answer.r (answerIo msg)
  have trace : (answered mid dest m answer.pending msg io answer.r).trace = b.trace ++ (es ++ after) := by
    rw [answered,completed_trace]
    simp [Base.emit,Base.setNode,before,after]
  by_cases same : dest = node
  · subst same
    have cell' : (answered mid dest m answer.pending msg io answer.r).nodeMem.cell dest =
        some { m with pendingIos := answer.pending } := by
      rw [answered,completed_nodeMem]
      simp [Base.emit,Base.setNode,cell]
    rw [untouched_iff cell' trace grows nodes traced]
    constructor
    · rintro ⟨_,kept,_⟩
      have gone := (LinkedList.del_eq_some answer.removed).1
      have listed := answer.listed
      rw [own rfl,← show answer.pending = n.pendingIos from kept,gone] at listed
      simp at listed
    · rintro ⟨_,other,_⟩
      exact (other rfl).elim
  · have other : node ≠ dest := fun eq => same eq.symm
    have cell' : (answered mid dest m answer.pending msg io answer.r).nodeMem.cell node = some n' := by
      rw [answered,completed_nodeMem]
      simp [Base.emit,Base.setNode,cell,other]
    rw [untouched_iff cell' trace grows nodes traced]
    have silent : ∀ e ∈ after ++ [Event.released io], ¬e.touches n := by
      intro e member
      simp only [after,completion,List.mem_append,List.mem_singleton] at member
      rcases member with (rfl | called) | rfl
      · exact id
      · split at called
        · obtain rfl := List.mem_singleton.mp called
          intro touched
          obtain ⟨i,listed,eq⟩ := List.mem_map.mp touched
          exact others same i listed eq
        · simp at called
      · exact id
    simp only [List.append_assoc]
    constructor
    · rintro ⟨lookups,_,quiet⟩
      exact ⟨lookups,same,fun e member => quiet e (List.mem_append_left _ member)⟩
    · rintro ⟨lookups,_,quiet⟩
      refine ⟨lookups,pending,fun e member => ?_⟩
      rcases List.mem_append.mp member with early | late
      · exact quiet e early
      · exact silent e late

theorem decMsg_clear {b : Base} (clear : msg.has msgFlagEnc = false) : decMsg b msg = msg := by simp [decMsg,clear]

/-- The node the frame is taken to come from. -/
theorem ClearFrame.dest {b : Base} (consistent : Consistent b) (frame : ClearFrame b node n msg) :
    ∃ li dest m, (li,dest) ∈ b.nodes.entries ∧ findNodeByAddr b msg.saddr = some (some dest) ∧
      b.nodeMem.cell dest = some m ∧ m.addr = msg.saddr := by
  have search := findNodeByAddr_eq msg.saddr consistent.node
  obtain ⟨e,listed,rfl⟩ := List.mem_map.mp frame.listed
  have present : hasAddr b msg.saddr e = true := by simp [hasAddr,frame.cell,frame.source]
  obtain ⟨d,first⟩ := Option.isSome_iff_exists.mp (List.find?_isSome.mpr ⟨e,listed,present⟩)
  have found := List.find?_some first
  obtain ⟨m,cell⟩ := consistent.node d (List.mem_of_find?_eq_some first)
  simp only [hasAddr,cell,Option.any_some,decide_eq_true_eq] at found
  exact ⟨d.1,d.2,m,List.mem_of_find?_eq_some first,by simp [search,first],cell,found⟩

theorem Consistent.apart {b : Base} {node dest : Ptr} (consistent : Consistent b)
    (listed : node ∈ b.nodes.entries.map Prod.snd)
    (cell : b.nodeMem.cell node = some n) (listed' : dest ∈ b.nodes.entries.map Prod.snd)
    (cell' : b.nodeMem.cell dest = some m) (member : i ∈ n.pendingIos.entries) (member' : j ∈ m.pendingIos.entries)
    (other : dest ≠ node) : i.2 ≠ j.2 := by
  intro same
  obtain ⟨e,one,rfl⟩ := List.mem_map.mp listed
  obtain ⟨d,another,rfl⟩ := List.mem_map.mp listed'
  obtain ⟨r,live,own⟩ := consistent.io e one n cell i (List.mem_append_right _ member)
  obtain ⟨r',live',own'⟩ := consistent.io d another m cell' j (List.mem_append_right _ member')
  rw [← same,live] at live'
  obtain rfl := Option.some.inj live'
  exact other (Option.some.inj (own'.symm.trans own))

/-- A SET in clear is handled as any other. -/
theorem handleSetMsg_untouched {b b' : Base} (consistent : Consistent b) (frame : ClearFrame b node n msg)
    (listed : (li,dest) ∈ b.nodes.entries) (cell : b.nodeMem.cell dest = some m) (source : m.addr = msg.saddr)
    (result : handleSetMsg linfo env b msg dest = some b') : Untouched b b' node n ↔
      notifies m msg = false ∧ (dest = node → KeepsPairs env n msg ∧
        (msg.has msgFlagReply = true → ∀ e ∈ n.pendingIos.entries, isAnswered b msg e = false)) := by
  obtain ⟨m',cell',cases⟩ := handleSetMsg_cases result
  obtain rfl := Option.some.inj (cell.symm.trans cell')
  obtain ⟨n',at_node,pending,pairs⟩ := addPair_cell env msg frame.cell cell
  have trace : (addPair env b dest m msg).trace = b.trace ++ if notifies m msg = true
      then [.sms msg.val] else [] := by
    rw [addPair_eq cell]
  have here : (addPair env b dest m msg).nodeMem.cell dest =
      some { m with keyvalPairs := storedPairs env m msg } := by
    rw [addPair_eq cell]; simp [Base.setNode,cell]
  have ios : (addPair env b dest m msg).ioMem = b.ioMem := by rw [addPair_eq cell]; rfl
  have live : ∀ e ∈ m.pendingIos.entries, ∃ r, (addPair env b dest m msg).ioMem.cell e.2 = some r := by
    intro e member
    obtain ⟨r,live,_⟩ := consistent.io _ listed m cell e (List.mem_append_right _ member)
    exact ⟨r,ios ▸ live⟩
  have same : ∀ e, isAnswered (addPair env b dest m msg) msg e = isAnswered b msg e := by
    intro e; simp only [isAnswered,ios]
  rcases cases with ⟨posts,es,called,shape,noReply⟩ | ⟨reply,⟨search,rfl⟩ | ⟨m',io,cell',⟨answer⟩⟩⟩
  · have quiet : ∀ e ∈ es, ¬e.touches n := by
      rcases shape with rfl | rfl
      · simp
      · simp [Event.touches]
    have trace' : (addPair env b dest m msg).trace ++ es =
        b.trace ++ ((if notifies m msg = true then [.sms msg.val] else []) ++ es) := by rw [trace,List.append_assoc]
    have at_node' : { addPair env b dest m msg with trace := (addPair env b dest m msg).trace ++
      es }.nodeMem.cell node =
        some n' := at_node
    rw [untouched_iff at_node' trace' (runPosts_grows called) rfl (List.append_nil _).symm,List.append_nil,
      sms_quiet quiet,pairs]
    simp [pending,noReply]
    tauto
  · have unmatched : ∀ e ∈ m.pendingIos.entries, isAnswered b msg e = false := by
      rcases findPendingIo_eq msg here source live with ⟨none,_⟩ | ⟨li,io,_,_,_,search'⟩
      · intro e member
        have missed := List.find?_eq_none.mp none e member
        rw [same] at missed
        simpa using missed
      · simp [search] at search'
    rw [untouched_iff at_node trace (Grows.refl _) rfl (List.append_nil _).symm,sms_quiet (by simp),pairs]
    have matches_none : dest = node → ∀ e ∈ n.pendingIos.entries, isAnswered b msg e = false := by
      rintro rfl
      obtain rfl := Option.some.inj (cell.symm.trans frame.cell)
      exact unmatched
    simp only [pending,true_and]
    constructor
    · rintro ⟨kept,silent⟩
      exact ⟨silent,fun eq => ⟨kept eq,fun _ => matches_none eq⟩⟩
    · rintro ⟨silent,rest⟩
      exact ⟨fun eq => (rest eq).1,silent⟩
  · obtain rfl := Option.some.inj (here.symm.trans cell')
    rw [answer_untouched_iff answer at_node trace pending ?_ ?_]
    · have none : ∀ e ∈ ([] : List Event), ¬Event.touches n e := by simp
      have quiet : _ ↔ notifies m msg = false := sms_quiet none
      rw [List.append_nil] at quiet
      rw [quiet,pairs]
      have matched : dest = node → ∃ e ∈ n.pendingIos.entries, isAnswered b msg e = true := by
        rintro rfl
        obtain rfl := Option.some.inj (cell.symm.trans frame.cell)
        refine ⟨_,answer.listed,?_⟩
        simp [isAnswered,← ios,answer.cell,answer.answers]
      constructor
      · rintro ⟨kept,other,silent⟩
        exact ⟨silent,fun eq => (other eq).elim⟩
      · rintro ⟨silent,rest⟩
        have other : dest ≠ node := by
          intro eq
          obtain ⟨e,member,hit⟩ := matched eq
          simp [(rest eq).2 reply e member] at hit
        exact ⟨fun eq => (rest eq).1,other,silent⟩
    · rintro rfl
      obtain rfl := Option.some.inj (cell.symm.trans frame.cell)
      rfl
    · intro other i member
      exact consistent.apart frame.listed frame.cell (List.mem_map_of_mem listed) cell member answer.listed other

theorem handleBanoMsg_known {b : Base} (clear : msg.has msgFlagEnc = false)
    (search : findNodeByAddr b msg.saddr = some (some dest)) (linfo : LoopInfo) (env : FrameEnv) (socket : Ptr) :
    handleBanoMsg linfo env b socket msg = (dispatch linfo env b msg dest).map fun b' => (0,b') := by
  simp [handleBanoMsg,decMsg_clear clear,search,Option.map_eq_bind]

theorem clearFrame_iff (consistent : Consistent b) (frame : ClearFrame b node n msg) (targets : PostsTo b env.posts)
    (linfo : LoopInfo) (socket : Ptr) : ∃ b', handleBanoMsg linfo env b socket msg = some (0,b') ∧
      (Untouched b b' node n ↔ Ignored env b node n msg) := by
  obtain ⟨li,dest,m,listed,search,cell,source⟩ := frame.dest consistent
  have ignored : Ignored env b node n msg ↔ (msg.op = msgOpSet → notifies m msg = false ∧
      (dest = node → KeepsPairs env n msg ∧
        (msg.has msgFlagReply = true → ∀ e ∈ n.pendingIos.entries, isAnswered b msg e = false))) := by
    unfold Ignored
    constructor
    · intro ignored set
      obtain ⟨dest',m',search',cell',rest⟩ := ignored set
      obtain rfl := Option.some.inj (Option.some.inj (search.symm.trans search'))
      obtain rfl := Option.some.inj (cell.symm.trans cell')
      exact rest
    · exact fun ignored set => ⟨dest,m,search,cell,ignored set⟩
  obtain ⟨b',handled⟩ : ∃ b', dispatch linfo env b msg dest = some b' := by
    unfold dispatch
    split
    · exact handleSetMsg_some linfo cell source (consistent.stops listed cell) targets
    split
    · unfold handleGetMsg
      split
      · exact runPosts_some targets
      · exact ⟨b,rfl⟩
    · exact ⟨b,rfl⟩
  refine ⟨b',by simp [handleBanoMsg_known frame.clear search,handled],?_⟩
  rw [ignored]
  rcases dispatch_cases handled with ⟨set,result⟩ | ⟨other,posts,es,called,shape⟩
  · rw [handleSetMsg_untouched consistent frame listed cell source result]
    simp [set]
  · have quiet : ∀ e ∈ es, ¬e.touches n := by
      rcases shape with rfl | ⟨_,rfl⟩
      · simp
      · simp [Event.touches]
    have cell' : { b with trace := b.trace ++ es }.nodeMem.cell node = some n := frame.cell
    rw [untouched_iff cell' rfl (runPosts_grows called) rfl (List.append_nil _).symm]
    simpa [other] using quiet

/-- A description of the one key 1. -/
def oneKey : Nodl := (Store.init.setOrAdd true true ⟨0,0⟩ 0 ⟨0,1⟩).2

def doorInfo : BanoNodeInfo where
  flags := nodeFlagAddr ||| nodeFlagNodlId ||| nodeFlagSocket ||| nodeFlagCipher
  addr := 0xa5a5a5a5
  nodlId := 0
  socket := 0

def doorNode : BanoNode := { infoNode doorInfo with nodl := some oneKey }

def xteaBase : Base :=
  { banoOpen 0 with
    cipher := ⟨.xtea,0xdeadbeef⟩
    nodls := (Store.init.setOrAdd true true .init 0 oneKey).2 }

def doorBase : Base :=
  { xteaBase with
    sockets := (LinkedList.empty.addTail true 0).2
    socketMem := Heap.empty.alloc ⟨.snrf⟩
    nodes := (LinkedList.empty.addTail true 0).2
    nodeMem := Heap.empty.alloc doorNode }

theorem doorBase_idle : Idle doorBase := by
  have start : Idle xteaBase := by constructor <;> simp [xteaBase,banoOpen]
  have added : banoAddSocket true true xteaBase .snrf = some (0,{ xteaBase with
      sockets := (LinkedList.empty.addTail true 0).2, socketMem := Heap.empty.alloc ⟨.snrf⟩ }) := rfl
  obtain ⟨idle,sockets⟩ := banoAddSocket_idle start added
  have described : xteaBase.nodls.lookup 0 = some oneKey := by simp [xteaBase,Store.lookup_setOrAdd]
  exact banoAddNode_idle idle (show doorInfo.socket ∈ _ by rw [sockets]; decide)
    (banoAddNode_some (by decide) (by decide) (by decide) described)

/-- A SET of the key in clear. -/
def clearSet : BanoMsg where
  op := msgOpSet
  flags := 0
  saddr := 0xa5a5a5a5
  csum := 0
  token := 0
  key := 1
  val := 7

theorem clearSet_frame : ClearFrame doorBase 0 doorNode clearSet :=
  ⟨rfl,by decide,rfl,by decide,by decide,rfl⟩

theorem clearFrame_iff_door : ∃ b', handleBanoMsg bareLoop bareEnv doorBase 0 clearSet = some (0,b') ∧
    (Untouched doorBase b' 0 doorNode ↔ Ignored bareEnv doorBase 0 doorNode clearSet) :=
  clearFrame_iff doorBase_idle.consistent clearSet_frame (by simp [PostsTo,bareEnv]) bareLoop 0

/-- The node has no pair, and the frame gives it one. -/
theorem clearSet_stored : ¬∀ linfo env b socket node n msg, Consistent b → ClearFrame b node n msg →
    PostsTo b env.posts → ∃ err b', handleBanoMsg linfo env b socket msg = some (err,b') ∧ Untouched b b' node n := by
  intro allUntouched
  obtain ⟨err,b',handled,untouched⟩ := allUntouched bareLoop bareEnv doorBase 0 0 doorNode clearSet
    doorBase_idle.consistent clearSet_frame (by simp [PostsTo,bareEnv])
  have search : findNodeByAddr doorBase clearSet.saddr = some (some 0) := by decide
  rw [handleBanoMsg_known clearSet_frame.clear search] at handled
  obtain ⟨b'',dispatched,same⟩ := Option.map_eq_some_iff.mp handled
  obtain ⟨_,rfl⟩ := Prod.mk.inj same
  have handled : handleSetMsg bareLoop bareEnv doorBase clearSet 0 = some b'' := dispatched
  have listed : (0,0) ∈ doorBase.nodes.entries := by decide
  have cell : doorBase.nodeMem.cell 0 = some doorNode := rfl
  have kept :=
    ((handleSetMsg_untouched doorBase_idle.consistent clearSet_frame listed cell rfl handled).mp untouched).2 rfl
  rcases kept.1 (by decide) with held | ⟨_,fails⟩
  · have noPairs : doorNode.keyvalPairs = .init := (infoNode_fields doorInfo).2.2.2
    simp [noPairs] at held
  · simp [bareEnv] at fails

end Bano
