import Bano.Described

/-! What the stores of the nodes mean: the value under a key is that of the last event about it. -/
namespace Bano

open Lib

/-- A node, a key and the value that is stored. -/
abbrev StoreEvent := Ptr × U16 × U32

/-- What a deciphered frame stores: a SET without error, under a key that the description of its
node has, or any if there is none; a node that is not known is registered first. -/
def frameEvent (b : Base) (m : BanoMsg) : Option StoreEvent :=
  if m.op = msgOpSet then
    match findNodeByAddr b m.saddr with
    | some (some node) => do
      let n ← b.nodeMem.cell node
      if stores n m then some (node,m.key,m.val) else none
    | some none =>
      if b.flags &&& baseFlagNewNodes ≠ 0 ∧ m.has msgFlagErr = false then some (b.nodeMem.next,m.key,m.val) else none
    | none => none
  else none

/-- What a request stores: a reset, 0. -/
def requestEvent (b : Base) (msg : HttpdMsg) : Option StoreEvent :=
  if msg.op = .rst then
    match findNodeByAddr b msg.naddr with
    | some (some node) => some (node,msg.key,0)
    | _ => none
  else none

def storeEvent (s : Loop) : Service → Option StoreEvent
  | .loop label => (label.frame s).bind fun (_,_,msg) => frameEvent s.base (decMsg s.base msg)
  | .http _ _ msg => requestEvent s.base msg

/-- Nodes and pairs are allocated when they are needed. -/
def Service.Allocates : Service → Loop → Prop
  | .loop label, s => ∀ socket env msg, label.frame s = some (socket,env,msg) →
      (env.mallocNode && env.mallocNodeItem) = true ∧ (env.mallocPair && env.mallocPairItem) = true
  | .http _ env _, _ => (env.mallocPair && env.mallocPairItem) = true

/-- A run with what its steps store. -/
inductive Served (linfo : LoopInfo) (s : Loop) : List StoreEvent → Loop → Prop where
  | start : Served linfo s [] s
  | step : Served linfo s events mid → service.Allocates mid → Service.step linfo service mid = some last →
      Served linfo s (events ++ (storeEvent mid service).toList) last

def lastValue (events : List StoreEvent) (node : Ptr) (key : U16) : Option U32 :=
  (events.reverse.find? fun e => e.1 = node ∧ e.2.1 = key).map fun e => e.2.2

/-- The completion function of the io is called on `c`; it may post, then the io is released. -/
structure Calls (io : Ptr) (err val : U32) (c b' : Base) : Prop where
  entered : ∃ front, c.trace = front ++ [.completed io err val]
  left : ∃ posts mid t timers, runPosts posts c = some mid ∧ banoTimerDel mid.timers t = some timers ∧
    banoFreeIo { mid with timers := timers } io = some b'

theorem lastValue_append (events : List StoreEvent) (node : Ptr) (key : U16) (val : U32) (p : Ptr) (k : U16) :
    lastValue (events ++ [(node,key,val)]) p k =
      if p = node ∧ k = key then some val else lastValue events p k := by
  unfold lastValue
  rw [List.reverse_append,List.reverse_singleton,List.singleton_append,List.find?_cons]
  by_cases here : p = node ∧ k = key
  · simp [here.1,here.2]
  · have apart : ¬(node = p ∧ key = k) := fun same => here ⟨same.1.symm,same.2.symm⟩
    simp [here,apart]

theorem lastValue_fresh (fresh : ∀ e ∈ events, e.1 < next) (k : U16) : lastValue events next k = none := by
  unfold lastValue
  rw [Option.map_eq_none_iff,List.find?_eq_none]
  intro e member
  have old := fresh e (List.mem_reverse.mp member)
  have apart : e.1 ≠ next := Nat.ne_of_lt old
  simp [apart]

/-- The stores hold what the events say, and nothing else. -/
structure Recorded (events : List StoreEvent) (b : Base) : Prop where
  fresh : ∀ e ∈ events, e.1 < b.nodeMem.next
  value : ∀ p n, b.nodeMem.cell p = some n → ∀ k : U16,
    (n.keyvalPairs.lookup (k.setWidth 32)).map NodeVal.val = lastValue events p k
  keys : ∀ p n, b.nodeMem.cell p = some n → ∀ k, n.keyvalPairs.lookup k ≠ none → ∃ key : U16, k = key.setWidth 32

theorem Unstored.recorded (unstored : Unstored b) : Recorded [] b where
  fresh := by simp
  value := by
    intro p n cell k
    rw [unstored p n cell]
    rfl
  keys := by
    intro p n cell k held
    exact absurd (unstored p n cell k) held

theorem Recorded.calm (recorded : Recorded events b) (calm : Calm b b') : Recorded events b' := by
  refine ⟨fun e member => calm.next ▸ recorded.fresh e member,fun p n' cell' => ?_,fun p n' cell' => ?_⟩
  · obtain ⟨n,cell,same⟩ := calm.face p n' cell'
    rw [(face_fields same).2.2.2.2]
    exact recorded.value p n cell
  · obtain ⟨n,cell,same⟩ := calm.face p n' cell'
    rw [(face_fields same).2.2.2.2]
    exact recorded.keys p n cell

theorem setWidth_key (k key : U16) : k.setWidth 32 = key.setWidth 32 ↔ k = key := by
  constructor
  · intro same
    have narrow := congrArg (BitVec.setWidth 16) same
    rw [BitVec.setWidth_setWidth_of_le _ (by decide),BitVec.setWidth_setWidth_of_le _ (by decide)] at narrow
    simpa using narrow
  · exact fun same => same ▸ rfl

/-- One value is stored. -/
theorem Recorded.store {pairs : Store NodeVal} (sec : Nat) (recorded : Recorded events b)
    (cell : b.nodeMem.cell node = some n)
    (lookup : ∀ k, pairs.lookup k = if k = key.setWidth 32 then some ⟨val,sec⟩ else n.keyvalPairs.lookup k)
    (next : b'.nodeMem.next = b.nodeMem.next)
    (nodeMem : ∀ p, b'.nodeMem.cell p = if p = node then some { n with keyvalPairs := pairs } else b.nodeMem.cell p) :
    Recorded (events ++ [(node,key,val)]) b' := by
  refine ⟨fun e member => ?_,fun p n' cell' k => ?_,fun p n' cell' k held => ?_⟩
  · rw [next]
    rcases List.mem_append.mp member with early | late
    · exact recorded.fresh e early
    · obtain rfl := List.mem_singleton.mp late
      exact Heap.lt_next cell
  · rw [lastValue_append]
    rw [nodeMem] at cell'
    by_cases here : p = node
    · rw [if_pos here] at cell'
      obtain rfl := Option.some.inj cell'
      simp only [lookup,setWidth_key,here,true_and]
      split
      · rfl
      · exact recorded.value node n cell k
    · rw [if_neg here] at cell'
      rw [if_neg fun both => here both.1]
      exact recorded.value p n' cell' k
  · rw [nodeMem] at cell'
    split at cell'
    · obtain rfl := Option.some.inj cell'
      rw [show _ = _ from lookup k] at held
      split at held
      · next same => exact ⟨key,same⟩
      · exact recorded.keys node n cell k held
    · exact recorded.keys p n' cell' k held

theorem Recorded.addPair (recorded : Recorded events b) (cell : b.nodeMem.cell node = some n)
    (mallocs : (env.mallocPair && env.mallocPairItem) = true) (msg : BanoMsg) :
    Recorded (events ++ (if stores n msg then some (node,msg.key,msg.val) else none).toList)
    (addPair env b node n msg) := by
  by_cases stored : stores n msg = true
  · rw [if_pos stored]
    refine recorded.store env.sec cell (fun k => ?_) ?_ (addPair_nodeMem cell)
    · simp [storedPairs,stored,Store.lookup_setOrAdd,mallocs]
    · rw [addPair_eq cell]
      rfl
  · have same : Bano.addPair env b node n msg = b := by
      rw [addPair_stores,if_neg stored]
    rw [if_neg stored,same]
    simpa using recorded

theorem Recorded.registered (recorded : Recorded events b) (nodes : LinkedList Ptr) (addr : U32) (socket : Ptr) :
    Recorded events (registered b nodes addr socket) := by
  have cells : ∀ p n, (Bano.registered b nodes addr socket).nodeMem.cell p = some n →
      p = b.nodeMem.next ∧ n = banoNodeAlloc addr socket ∨ b.nodeMem.cell p = some n := by
    intro p n cell
    by_cases here : p = b.nodeMem.next
    · subst here
      exact .inl ⟨rfl,(Option.some.inj ((Heap.alloc_cell_next _ _).symm.trans cell)).symm⟩
    · exact .inr ((Heap.alloc_cell_other here _).symm.trans cell)
  refine ⟨fun e member => Nat.lt_succ_of_lt (recorded.fresh e member),fun p n cell k => ?_,fun p n cell k held => ?_⟩
  · rcases cells p n cell with ⟨rfl,rfl⟩ | old
    · rw [lastValue_fresh recorded.fresh]
      simp [banoNodeAlloc]
    · exact recorded.value p n old k
  · rcases cells p n cell with ⟨_,rfl⟩ | old
    · simp [banoNodeAlloc] at held
    · exact recorded.keys p n old k held

theorem Recorded.heard (recorded : Recorded events b) (mallocs : (env.mallocNode && env.mallocNodeItem) = true)
    (mallocs' : (env.mallocPair && env.mallocPairItem) = true) (heard : Heard env socket m b b') :
    Recorded (events ++ (frameEvent b m).toList) b' := by
  cases heard with
  | other calm reason =>
    have none : frameEvent b m = none := by
      unfold frameEvent
      split
      · next set =>
        obtain ⟨search,off | fails⟩ := reason set
        · simp [search,off]
        · simp [mallocs] at fails
      · rfl
    simpa [none] using recorded.calm calm
  | @known node n search cell set calm =>
    have event : frameEvent b m = if stores n m then some (node,m.key,m.val) else none := by
      simp only [frameEvent,set,if_true,search,cell]
      rfl
    rw [event]
    exact (recorded.addPair cell mallocs' m).calm calm
  | @new nodes search on _ unset set =>
    have start := recorded.registered nodes m.saddr socket
    by_cases op : m.op = msgOpSet
    · have here : (Bano.registered b nodes m.saddr socket).nodeMem.cell b.nodeMem.next =
        some (banoNodeAlloc m.saddr socket) := Heap.alloc_cell_next _ _
      have event : frameEvent b m =
          if stores (banoNodeAlloc m.saddr socket) m then some (b.nodeMem.next,m.key,m.val) else none := by
        have on' : ¬b.flags &&& baseFlagNewNodes = 0 := on
        cases err : m.has msgFlagErr <;>
          simp only [frameEvent,op,if_true,search,ne_eq,on',not_false_eq_true,err,true_and,stores,banoNodeAlloc,
            Option.all_none] <;>
          rfl
      rw [event]
      exact (start.addPair here mallocs' m).calm (set op)
    · have none : frameEvent b m = none := by simp [frameEvent,op]
      simpa [none] using start.calm (unset op)

theorem Recorded.request (recorded : Recorded events b) (mallocs : (env.mallocPair && env.mallocPairItem) = true)
    (result : handleHttpdMsg env b msg = some (err,b')) : Recorded (events ++ (requestEvent b msg).toList) b' := by
  by_cases rst : msg.op = .rst
  · rcases handleHttpdMsg_rst rst result with ⟨search,rfl⟩ | ⟨node,n,search,cell,rfl⟩
    · simpa [requestEvent,rst,search] using recorded
    · have event : requestEvent b msg = some (node,msg.key,0) := by simp [requestEvent,rst,search]
      rw [event]
      refine recorded.store env.sec cell (fun k => ?_) rfl (setNode_nodeMem cell _)
      simp [resetPairs,Store.lookup_setOrAdd,mallocs]
  · have none : requestEvent b msg = none := by simp [requestEvent,rst]
    simpa [none] using recorded.calm (handleHttpdMsg_calm rst result)

theorem Recorded.step (recorded : Recorded events s.base) (allocates : service.Allocates s)
    (taken : Service.step linfo service s = some s') :
    Recorded (events ++ (storeEvent s service).toList) s'.base := by
  cases service with
  | loop label =>
    rcases step_heard taken with ⟨frame,calm⟩ | ⟨socket,env,msg,frame,heard⟩
    · simpa [storeEvent,frame] using recorded.calm calm
    · obtain ⟨mallocs,mallocs'⟩ := allocates socket env msg frame
      simpa [storeEvent,frame] using recorded.heard mallocs mallocs' heard
  | http li env msg =>
    obtain ⟨err,b,handled,rfl⟩ := service_http taken
    exact recorded.request allocates handled

theorem served_recorded (unstored : Unstored s.base) (served : Served linfo s events t) : Recorded events t.base := by
  induction served with
  | start => exact unstored.recorded
  | step _ allocates taken ih => exact ih.step allocates taken

/-- No completion function is called. -/
def Uncalled (es : List Event) : Prop := ∀ io err val, .completed io err val ∉ es

theorem Uncalled.append (one : Uncalled es) (other : Uncalled fs) : Uncalled (es ++ fs) := by
  intro io err val member
  rcases List.mem_append.mp member with early | late
  · exact one io err val early
  · exact other io err val late

theorem runPosts_uncalled (result : runPosts posts b = some b') : ∃ es, b'.trace = b.trace ++ es ∧ Uncalled es := by
  obtain ⟨es,trace,posted⟩ := (runPosts_grows result).trace
  refine ⟨es,trace,fun io err val member => ?_⟩
  obtain ⟨_,_,_,same,_⟩ := posted _ member
  exact nomatch same

theorem addPair_uncalled {b : Base} (cell : b.nodeMem.cell node = some n) (env : FrameEnv) (msg : BanoMsg) :
    ∃ es, (addPair env b node n msg).trace = b.trace ++ es ∧ Uncalled es := by
  refine ⟨_,congrArg Base.trace (addPair_eq cell),fun io err val member => ?_⟩
  split at member <;> simp at member

/-- A completion that the frame `m` causes: it is a reply, and where its key is valid the node's store
holds its value when the completion function is called on `c`. -/
structure Completes (env : FrameEnv) (m : BanoMsg) (node io : Ptr) (err val : U32) (c : Base)
    (n : BanoNode) : Prop where
  cell : c.nodeMem.cell node = some n
  reply : m.has msgFlagReply = true
  success : err = ioErrSuccess → m.has msgFlagErr = false ∧ val = m.val
  stored : stores n m = true → n.keyvalPairs.lookup (m.key.setWidth 32) = some ⟨m.val,env.sec⟩

theorem answered_calls (answer : Answer b node n msg io b') : ∃ es, b'.trace = b.trace ++ es ∧
    ∀ io' err val, .completed io' err val ∈ es → err = (answerIo msg answer.r).complErr ∧
      val = (answerIo msg answer.r).complVal ∧
      Calls io' err val (answered b node n answer.pending msg io answer.r) b' := by
  obtain ⟨ps,posted,uncalled⟩ := runPosts_uncalled answer.called
  have final := (banoFreeIo_cases answer.final).1
  have start : (answered b node n answer.pending msg io answer.r).trace =
      b.trace ++ ([.answered io msg] ++ completion io answer.r (answerIo msg)) := by
    rw [answered,completed_trace]
    simp [Base.emit,Base.setNode]
  refine ⟨[.answered io msg] ++ completion io answer.r (answerIo msg) ++ (ps ++ [.released io]),?_,?_⟩
  · have trace : b'.trace = answer.mid.trace ++ [.released io] := (congrArg Base.trace final).trans rfl
    rw [trace,posted,start]
    simp only [List.append_assoc]
  · intro io' err val member
    have called : .completed io' err val ∈ completion io answer.r (answerIo msg) := by
      simpa [uncalled io' err val] using member
    unfold completion at called
    split at called
    · next fn =>
      obtain ⟨rfl,rfl,rfl⟩ := Event.completed.inj (List.mem_singleton.mp called)
      refine ⟨rfl,rfl,⟨b.trace ++ [.answered io' msg],?_⟩,answer.posts,answer.mid,answer.t,
        answer.timers,answer.called,
        answer.stopped,answer.final⟩
      rw [start,completion,if_pos fn]
      simp
    · cases called

theorem answerIo_success (success : (answerIo msg r).complErr = ioErrSuccess) :
    msg.has msgFlagErr = false ∧ (answerIo msg r).complVal = msg.val := by
  unfold answerIo at success ⊢
  split at success
  · exact absurd success (show ¬ioErrFailure = ioErrSuccess by decide)
  · next fine =>
    rw [if_neg fine]
    exact ⟨by simpa using fine,rfl⟩

theorem handleSetMsg_calls (mallocs : (env.mallocPair && env.mallocPairItem) = true)
    (result : handleSetMsg linfo env b msg node = some b') : ∃ es, b'.trace = b.trace ++ es ∧
      ∀ io err val, .completed io err val ∈ es →
        ∃ c n, Calls io err val c b' ∧ Completes env msg node io err val c n := by
  obtain ⟨n,cell,cases⟩ := handleSetMsg_cases result
  obtain ⟨as,added,quiet⟩ := addPair_uncalled cell env msg
  rcases cases with ⟨posts,es,called,shape,_⟩ | ⟨reply,⟨_,rfl⟩ | ⟨m,io,here,⟨answer⟩⟩⟩
  · obtain ⟨ps,posted,uncalled⟩ := runPosts_uncalled called
    have silent : Uncalled es := by
      rcases shape with rfl | rfl <;> intro io err val member <;> simp at member
    refine ⟨as ++ (es ++ ps),?_,fun io err val member => ?_⟩
    · rw [posted]
      show (addPair env b node n msg).trace ++ es ++ ps = _
      rw [added]
      simp only [List.append_assoc]
    · exact absurd member (quiet.append (silent.append uncalled) io err val)
  · exact ⟨as,added,fun io err val member => absurd member (quiet io err val)⟩
  · obtain ⟨es,trace,calls⟩ := answered_calls answer
    refine ⟨as ++ es,by rw [trace,added,List.append_assoc],fun io' err val member => ?_⟩
    obtain ⟨rfl,rfl,called⟩ := calls io' err val ((List.mem_append.mp member).resolve_left (quiet io' err val))
    refine ⟨_,{ m with pendingIos := answer.pending },called,?_,reply,answerIo_success,fun stored => ?_⟩
    · rw [answered,completed_nodeMem]
      simp [Base.emit,Base.setNode,here]
    · rw [addPair_nodeMem cell,if_pos rfl] at here
      obtain rfl := Option.some.inj here
      have stored' : stores n msg = true := stored
      simp [storedPairs,stored',Store.lookup_setOrAdd,mallocs]

theorem dispatch_calls (mallocs : (env.mallocPair && env.mallocPairItem) = true)
    (result : dispatch linfo env b msg node = some b') : ∃ es, b'.trace = b.trace ++ es ∧
      ∀ io err val, .completed io err val ∈ es →
        ∃ c n, Calls io err val c b' ∧ Completes env msg node io err val c n := by
  rcases dispatch_cases result with ⟨_,handled⟩ | ⟨_,posts,es,called,shape⟩
  · exact handleSetMsg_calls mallocs handled
  · obtain ⟨ps,posted,uncalled⟩ := runPosts_uncalled called
    have silent : Uncalled es := by
      rcases shape with rfl | ⟨_,rfl⟩ <;> intro io err val member <;> simp at member
    refine ⟨es ++ ps,by rw [posted,List.append_assoc],fun io err val member => ?_⟩
    exact absurd member (silent.append uncalled io err val)

/-- The node that a frame is for: the one of its address, or the one that is registered for it. -/
def IsFor (b : Base) (m : BanoMsg) (node : Ptr) : Prop :=
  findNodeByAddr b m.saddr = some (some node) ∨ node = b.nodeMem.next

theorem handleBanoMsg_calls (mallocs : (env.mallocPair && env.mallocPairItem) = true)
    (result : handleBanoMsg linfo env b socket msg = some (ret,b')) : ∃ es, b'.trace = b.trace ++ es ∧
      ∀ io err val, .completed io err val ∈ es → ∃ node c n, IsFor b (decMsg b msg) node ∧
        Calls io err val c b' ∧ Completes env (decMsg b msg) node io err val c n := by
  rcases handleBanoMsg_cases result with rfl | ⟨node,search,handled⟩ | ⟨nodes,mid,posts,es,_,called,shape,handled⟩
  · exact ⟨[],(List.append_nil _).symm,by simp⟩
  · obtain ⟨es,trace,calls⟩ := dispatch_calls mallocs handled
    refine ⟨es,trace,fun io err val member => ?_⟩
    obtain ⟨c,n,call,completes⟩ := calls io err val member
    exact ⟨node,c,n,.inl search,call,completes⟩
  · obtain ⟨ps,posted,uncalled⟩ := runPosts_uncalled called
    obtain ⟨fs,trace,calls⟩ := dispatch_calls mallocs handled
    have silent : Uncalled es := by
      rcases shape with rfl | rfl <;> intro io err val member <;> simp at member
    refine ⟨es ++ ps ++ fs,by rw [trace,posted]; simp only [List.append_assoc],fun io err val member => ?_⟩
    obtain ⟨c,n,call,completes⟩ := calls io err val
      ((List.mem_append.mp member).resolve_left (silent.append uncalled io err val))
    exact ⟨_,c,n,.inr rfl,call,completes⟩

/-- The value stored for a key of a node is that of the last event about it, and a completion
function that is called with success for a reply with a valid key finds its value stored. -/
theorem store_meaning (unstored : Unstored s.base) (served : Served linfo s events t) :
    (∀ p n, t.base.nodeMem.cell p = some n →
      (∀ k : U16, (n.keyvalPairs.lookup (k.setWidth 32)).map NodeVal.val = lastValue events p k) ∧
      ∀ k, n.keyvalPairs.lookup k ≠ none → ∃ key : U16, k = key.setWidth 32) ∧
    ∀ label t' socket env msg, Service.Allocates (.loop label) t → Loop.step linfo label t = some t' →
      label.frame t = some (socket,env,msg) → ∃ es, t'.base.trace = t.base.trace ++ es ∧
        ∀ io val, .completed io ioErrSuccess val ∈ es → ∃ node c n, IsFor t.base (decMsg t.base msg) node ∧
          Calls io ioErrSuccess val c t'.base ∧ c.nodeMem.cell node = some n ∧
          (n.nodl.all (fun nodl => (banoNodlFindKey nodl (decMsg t.base msg).key).isSome) = true →
            (n.keyvalPairs.lookup ((decMsg t.base msg).key.setWidth 32)).map NodeVal.val = some val) := by
  have recorded := served_recorded unstored served
  refine ⟨fun p n cell => ⟨recorded.value p n cell,recorded.keys p n cell⟩,?_⟩
  intro label t' socket env msg allocates taken frame
  obtain ⟨ret,handled⟩ := step_frame frame taken
  obtain ⟨es,trace,calls⟩ := handleBanoMsg_calls (allocates socket env msg frame).2 handled
  refine ⟨es,trace,fun io val member => ?_⟩
  obtain ⟨node,c,n,isFor,call,completes⟩ := calls io ioErrSuccess val member
  obtain ⟨fine,rfl⟩ := completes.success rfl
  refine ⟨node,c,n,isFor,call,completes.cell,fun valid => ?_⟩
  have stored : stores n (decMsg t.base msg) = true := by simp [stores,fine,valid]
  rw [completes.stored stored]
  rfl

/-- The door is set to 7 by a frame, and reset by a client. -/
def doorServices : List Service := [.loop (.read 0 bareEnv (.msg clearSet)),resetKey 1]

theorem store_meaning_door : ∃ s, run (Service.step bareLoop) doorServices ⟨servedDoor,none,.idle⟩ = some s ∧
    ∀ n, s.base.nodeMem.cell 0 = some n →
      (n.keyvalPairs.lookup ((1 : U16).setWidth 32)).map NodeVal.val = some 0 := by
  obtain ⟨s1,ran1,event1⟩ : ∃ s1, run (Service.step bareLoop) [.loop (.read 0 bareEnv (.msg clearSet))]
      ⟨servedDoor,none,.idle⟩ = some s1 ∧ storeEvent s1 (resetKey 1) = some (0,1,0) := Option.map_eq_some_iff.mp rfl
  obtain ⟨s,ran,_⟩ : ∃ s, run (Service.step bareLoop) doorServices ⟨servedDoor,none,.idle⟩ = some s ∧
      s.control = .idle := Option.map_eq_some_iff.mp rfl
  have taken1 : Service.step bareLoop (.loop (.read 0 bareEnv (.msg clearSet)))
      ⟨servedDoor,none,.idle⟩ = some s1 := by
    simpa [run] using ran1
  have taken : Service.step bareLoop (resetKey 1) s1 = some s := by
    have both : run (Service.step bareLoop) ([.loop (.read 0 bareEnv (.msg clearSet))] ++ [resetKey 1])
      ⟨servedDoor,none,.idle⟩ = some s := ran
    rw [run_concat,ran1] at both
    exact both
  have allocates : Service.Allocates (.loop (.read 0 bareEnv (.msg clearSet))) ⟨servedDoor,none,.idle⟩ := by
    intro socket env msg frame
    obtain ⟨_,rfl,_⟩ : (0 : Ptr) = socket ∧ bareEnv = env ∧ clearSet = msg := by
      have known : Label.frame ⟨servedDoor,none,.idle⟩ (.read 0 bareEnv (.msg clearSet)) =
        some (0,bareEnv,clearSet) := rfl
      simpa using known.symm.trans frame
    exact ⟨rfl,rfl⟩
  have served : Served bareLoop ⟨servedDoor,none,.idle⟩ _ s :=
    .step (.step .start allocates taken1) (show Service.Allocates (resetKey 1) s1 from rfl) taken
  refine ⟨s,ran,fun n cell => ?_⟩
  rw [((store_meaning servedDoor_unstored served).1 0 n cell).1 1,event1]
  exact lastValue_append _ 0 1 0 0 1

end Bano
