import Bano.Accounts
import Bano.Lib.Queue
import Bano.Serving

/-! In which order ios are written. What is posted to a node enters its queue, a write serves
the head of the queue, and an io whose timer expires enters the queue again. -/
namespace Bano

open Lib

def Event.postedTo (node : Ptr) : Event → Option Ptr
  | .posted p io _ => if p = node then some io else none
  | _ => none

def Event.writtenTo (node : Ptr) : Event → Option Ptr
  | .written p io _ _ => if p = node then some io else none
  | _ => none

def postings (node : Ptr) (es : List Event) : List Ptr := es.filterMap (Event.postedTo node)

def writings (node : Ptr) (es : List Event) : List Ptr := es.filterMap (Event.writtenTo node)

@[simp] theorem postings_append (node : Ptr) (es fs : List Event) :
    postings node (es ++ fs) = postings node es ++ postings node fs := List.filterMap_append

@[simp] theorem writings_append (node : Ptr) (es fs : List Event) :
    writings node (es ++ fs) = writings node es ++ writings node fs := List.filterMap_append

def iosOf (l : LinkedList Ptr) : List Ptr := l.entries.map Prod.snd

def queued (b : Base) (node : Ptr) : List Ptr := (b.nodeMem.cell node).elim [] fun n => iosOf n.postedIos

def awaiting (b : Base) (node : Ptr) : List Ptr := (b.nodeMem.cell node).elim [] fun n => iosOf n.pendingIos

theorem queued_cell {b : Base} (cell : b.nodeMem.cell node = some n) : queued b node = iosOf n.postedIos := by
  simp [queued,cell]

theorem awaiting_cell {b : Base} (cell : b.nodeMem.cell node = some n) : awaiting b node = iosOf n.pendingIos := by
  simp [awaiting,cell]

theorem queued_same {b b' : Base} (same : b'.nodeMem.cell node = b.nodeMem.cell node) :
    queued b' node = queued b node := by
  rw [queued,same,queued]

theorem awaiting_same {b b' : Base} (same : b'.nodeMem.cell node = b.nodeMem.cell node) :
    awaiting b' node = awaiting b node := by
  rw [awaiting,same,awaiting]

/-- One node is stored anew. -/
theorem queued_modify {b b' : Base} (cell : b.nodeMem.cell node = some n)
    (stored : b'.nodeMem = b.nodeMem.modify node fun _ => n') (p : Ptr) :
    queued b' p = if p = node then iosOf n'.postedIos else queued b p := by
  by_cases here : p = node
  · subst here
    simp [queued,stored,cell]
  · simp [queued,stored,here]

theorem awaiting_modify {b b' : Base} (cell : b.nodeMem.cell node = some n)
    (stored : b'.nodeMem = b.nodeMem.modify node fun _ => n') (p : Ptr) :
    awaiting b' p = if p = node then iosOf n'.pendingIos else awaiting b p := by
  by_cases here : p = node
  · subst here
    simp [awaiting,stored,cell]
  · simp [awaiting,stored,here]

/-- The node that is stored anew awaits no other io. -/
theorem awaiting_kept {b b' : Base} (cell : b.nodeMem.cell node = some n)
    (stored : b'.nodeMem = b.nodeMem.modify node fun _ => n') (kept : ∀ io ∈ iosOf n'.pendingIos,
      io ∈ iosOf n.pendingIos)
    (p io : Ptr) (member : io ∈ awaiting b' p) : io ∈ awaiting b p := by
  rw [awaiting_modify cell stored] at member
  split at member
  · next here =>
    subst here
    rw [awaiting_cell cell]
    exact kept io member
  · exact member

/-- What was posted to the node, what was written to it, and what is posted and not yet written. -/
def queueOf (b : Base) (node : Ptr) : Queue Ptr := ⟨postings node b.trace,writings node b.trace,queued b node⟩

/-- The ios that were posted are older than the next, and those that await a reply were written. -/
structure Lined (b : Base) : Prop where
  old : ∀ node, ∀ io ∈ postings node b.trace, io < b.ioMem.next
  sent : ∀ node, ∀ io ∈ awaiting b node, io ∈ writings node b.trace

structure Serves (b b' : Base) : Prop where
  lined : Lined b'
  steps : ∀ node, (queueOf b node).Steps (queueOf b' node)

theorem Lined.same (lined : Lined b) : Serves b b := ⟨lined,fun _ => .refl⟩

theorem Serves.trans (one : Serves a b) (other : Serves b c) : Serves a c :=
  ⟨other.lined,fun node => (one.steps node).trans (other.steps node)⟩

/-- Events that are neither a post nor a write. -/
def Quiet (es : List Event) : Prop := ∀ e ∈ es, ∀ node, e.postedTo node = none ∧ e.writtenTo node = none

theorem Quiet.postings (quiet : Quiet es) (node : Ptr) : postings node es = [] :=
  List.filterMap_eq_nil_iff.mpr fun e member => (quiet e member node).1

theorem Quiet.writings (quiet : Quiet es) (node : Ptr) : writings node es = [] :=
  List.filterMap_eq_nil_iff.mpr fun e member => (quiet e member node).2

theorem Quiet.append (one : Quiet es) (other : Quiet fs) : Quiet (es ++ fs) := fun e member =>
  (List.mem_append.mp member).elim (one e) (other e)

theorem quiet_nil : Quiet [] := fun _ member => absurd member List.not_mem_nil

theorem quiet_completion (io : Ptr) (r : BanoIo) (f : BanoIo → BanoIo) : Quiet (completion io r f) := by
  unfold completion
  split <;> simp [Quiet,Event.postedTo,Event.writtenTo]

/-- Ios enter the queues, and nothing else happens to these. -/
structure Enters (b b' : Base) (new : Ptr → List Ptr) : Prop where
  posts : ∀ node, postings node b'.trace = postings node b.trace ++ new node
  writes : ∀ node, writings node b'.trace = writings node b.trace
  waits : ∀ node, queued b' node = queued b node ++ new node
  awaits : ∀ node, ∀ io ∈ awaiting b' node, io ∈ awaiting b node
  fresh : ∀ node, ∀ io ∈ new node, b.ioMem.next ≤ io ∧ io < b'.ioMem.next
  apart : ∀ node, (new node).Nodup
  next : b.ioMem.next ≤ b'.ioMem.next

theorem Enters.trans (one : Enters a b new) (other : Enters b c later) : Enters a c fun node =>
    new node ++ later node := by
  refine ⟨fun node => ?_,fun node => (other.writes node).trans (one.writes node),fun node => ?_,
    fun node io member => one.awaits node io (other.awaits node io member),fun node io member => ?_,fun node => ?_,
    one.next.trans other.next⟩
  · rw [other.posts,one.posts,List.append_assoc]
  · rw [other.waits,one.waits,List.append_assoc]
  · rcases List.mem_append.mp member with early | late
    · obtain ⟨least,below⟩ := one.fresh node io early
      exact ⟨least,below.trans_le other.next⟩
    · obtain ⟨least,below⟩ := other.fresh node io late
      exact ⟨one.next.trans least,below⟩
  · refine List.nodup_append.mpr ⟨one.apart node,other.apart node,fun io early io' late same => ?_⟩
    have below := (one.fresh node io early).2
    have least := (other.fresh node io' late).1
    exact Nat.ne_of_lt (below.trans_le least) same

/-- Nothing enters. -/
abbrev Unmoved (b b' : Base) : Prop := Enters b b' fun _ => []

theorem Unmoved.of_quiet {b b' : Base} (trace : b'.trace = b.trace ++ es) (quiet : Quiet es)
    (waits : ∀ node, queued b' node = queued b node) (awaits : ∀ node, ∀ io ∈ awaiting b' node,
      io ∈ awaiting b node)
    (next : b.ioMem.next ≤ b'.ioMem.next) : Unmoved b b' :=
  ⟨fun node => by rw [trace,postings_append,quiet.postings],
    fun node => by rw [trace,writings_append,quiet.writings,List.append_nil],
    fun node => by
      rw [waits,List.append_nil],awaits,fun _ _ member => absurd member List.not_mem_nil,fun _ => .nil,next⟩

/-- The nodes are as they were. -/
theorem Unmoved.of_same {b b' : Base} (trace : b'.trace = b.trace ++ es) (quiet : Quiet es)
    (same : b'.nodeMem = b.nodeMem)
    (next : b.ioMem.next ≤ b'.ioMem.next) : Unmoved b b' :=
  .of_quiet trace quiet (fun _ => queued_same (by rw [same]))
    (fun _ io member => awaiting_same (b := b) (by rw [same]) ▸ member) next

theorem Unmoved.silent {b b' : Base} (trace : b'.trace = b.trace) (same : b'.nodeMem = b.nodeMem)
    (next : b.ioMem.next ≤ b'.ioMem.next) : Unmoved b b' :=
  .of_same (trace.trans (List.append_nil _).symm) quiet_nil same next

theorem Unmoved.refl (b : Base) : Unmoved b b := .silent rfl rfl (Nat.le_refl _)

/-- One node is stored anew, with the ios it has queued. -/
theorem Unmoved.of_node {b b' : Base} (cell : b.nodeMem.cell node = some n) (trace : b'.trace = b.trace ++ es)
    (quiet : Quiet es)
    (stored : b'.nodeMem = b.nodeMem.modify node fun _ => n') (posted : n'.postedIos = n.postedIos)
    (kept : ∀ io ∈ iosOf n'.pendingIos, io ∈ iosOf n.pendingIos) (next : b.ioMem.next ≤ b'.ioMem.next) :
    Unmoved b b' := by
  refine .of_quiet trace quiet (fun p => ?_) (awaiting_kept cell stored kept) next
  rw [queued_modify cell stored,posted]
  split
  · next here => rw [here,queued_cell cell]
  · rfl

theorem Enters.after (enters : Enters b c new) (unmoved : Unmoved a b) : Enters a c new := unmoved.trans enters

theorem Enters.then (enters : Enters a b new) (unmoved : Unmoved b c) : Enters a c new := by
  have all := enters.trans unmoved
  simpa only [List.append_nil] using all

theorem Enters.serves (enters : Enters b b' new) (lined : Lined b) : Serves b b' := by
  have fresh : ∀ node, ∀ io ∈ new node, io ∉ postings node b.trace := fun node io member known => by
    have old := lined.old node io known
    have least := (enters.fresh node io member).1
    exact Nat.not_le_of_lt old least
  refine ⟨⟨fun node io member => ?_,fun node io member => ?_⟩,fun node => ?_⟩
  · rw [enters.posts] at member
    rcases List.mem_append.mp member with known | entered
    · exact (lined.old node io known).trans_le enters.next
    · exact (enters.fresh node io entered).2
  · rw [enters.writes]
    exact lined.sent node io (enters.awaits node io member)
  · have entered := Queue.Steps.enter (postings node b.trace) (writings node b.trace) (queued b node)
      (enters.apart node) (fresh node)
    rw [queueOf,queueOf,enters.posts,enters.writes,enters.waits]
    exact entered

theorem postNew_enters (result : postNew b p = some b') : ∃ new, Enters b b' new := by
  rcases postNew_cases result with rfl | ⟨n,posted,cell,entries,_,rfl⟩
  · exact ⟨_,Unmoved.silent rfl rfl (Nat.le_succ _)⟩
  · refine ⟨fun node => if p.node = node then [b.ioMem.next] else [],fun node => ?_,fun node => ?_,fun node => ?_,
      fun node io member => ?_,fun node io member => ?_,fun node => ?_,Nat.le_succ _⟩
    · by_cases here : p.node = node <;> simp [accepted,postings,Event.postedTo,here]
    · simp [accepted,writings,Event.writtenTo]
    · rw [queued_modify cell rfl]
      by_cases here : p.node = node
      · subst here
        simp [queued_cell cell,iosOf,entries]
      · simp [here,Ne.symm here]
    · exact awaiting_kept cell rfl (by simp) node io member
    · split at member
      · obtain rfl := List.mem_singleton.mp member
        exact ⟨Nat.le_refl _,Nat.lt_succ_self _⟩
      · exact absurd member List.not_mem_nil
    · split
      · exact List.nodup_singleton _
      · exact .nil

theorem runPosts_enters (result : runPosts posts b = some b') : ∃ new, Enters b b' new := by
  refine runPosts_induct (P := fun mid => ∃ new, Enters b mid new) ?_ result ⟨_,Unmoved.refl b⟩
  rintro mid p mid' ⟨new,enters⟩ posted
  obtain ⟨later,entered⟩ := postNew_enters posted
  exact ⟨_,enters.trans entered⟩

/-- A callback, after some events. -/
theorem traced_enters (quiet : Quiet es) (result : runPosts posts { b with trace := b.trace ++ es } = some b') :
    ∃ new, Enters b b' new := by
  obtain ⟨new,enters⟩ := runPosts_enters result
  have start : Unmoved b { b with trace := b.trace ++ es } := .of_same rfl quiet rfl (Nat.le_refl _)
  exact ⟨new,enters.after start⟩

theorem completed_unmoved (b : Base) (io : Ptr) (r : BanoIo) (f : BanoIo → BanoIo) :
    Unmoved b (completed b io r f) := by
  refine .of_same (completed_trace b io r f) (quiet_completion io r f) (completed_nodeMem b io r f) ?_
  unfold completed
  split <;> exact Nat.le_refl _

theorem released_unmoved (b : Base) (io : Ptr) : Unmoved b (released b io) :=
  .of_same rfl (by simp [Quiet,Event.postedTo,Event.writtenTo]) rfl (Nat.le_refl _)

theorem iosOf_del {l l' : LinkedList Ptr} (removed : l.del li = some l') (member : io ∈ iosOf l') : io ∈ iosOf l := by
  obtain ⟨e,listed,rfl⟩ := List.mem_map.mp member
  exact List.mem_map_of_mem (f := Prod.snd) (mem_of_del removed listed)

/-- The head of a list is taken from it. -/
theorem del_head {l l' : LinkedList Ptr} (removed : l.del li = some l') (entries : l.entries = (li,io) :: rest) :
    l'.entries = rest := by
  have apart : (([] ++ (li,io) :: rest).map Prod.fst).Nodup := by
    rw [List.nil_append,← entries]
    exact l.nodup
  rw [(LinkedList.del_eq_some removed).1,entries]
  exact filter_split apart

/-- What a frame stores in a node. -/
theorem setPairs_unmoved {b : Base} (cell : b.nodeMem.cell node = some n) (pairs : Store NodeVal) (quiet : Quiet es) :
    Unmoved b { b.setNode node { n with keyvalPairs := pairs } with trace := b.trace ++ es } :=
  .of_node cell rfl quiet rfl rfl (fun _ listed => listed) (Nat.le_refl _)

theorem addPair_unmoved {b : Base} (cell : b.nodeMem.cell node = some n) (env : FrameEnv) (msg : BanoMsg) :
    Unmoved b (addPair env b node n msg) := by
  rw [addPair_eq cell]
  apply setPairs_unmoved cell _
  split <;> simp [Quiet,Event.postedTo,Event.writtenTo]

/-- An io is taken from what the node awaits. -/
theorem setPending_unmoved {b : Base} (cell : b.nodeMem.cell node = some n)
    (removed : n.pendingIos.del li = some pending) :
    Unmoved b (b.setNode node { n with pendingIos := pending }) :=
  .of_node cell (List.append_nil _).symm quiet_nil rfl rfl (fun _ => iosOf_del removed) (Nat.le_refl _)

theorem dispatch_enters (result : dispatch linfo env b msg node = some b') : ∃ new, Enters b b' new := by
  rcases dispatch_cases result with ⟨_,handled⟩ | ⟨_,posts,es,called,shape⟩
  · obtain ⟨n,cell,cases⟩ := handleSetMsg_cases handled
    have added := addPair_unmoved cell env msg
    rcases cases with ⟨posts,es,called,shape,_⟩ | ⟨_,⟨_,rfl⟩ | ⟨m,io,cell',⟨answer⟩⟩⟩
    · have quiet : Quiet es := by
        rcases shape with rfl | rfl <;> simp [Quiet,Event.postedTo,Event.writtenTo]
      obtain ⟨new,enters⟩ := traced_enters quiet called
      exact ⟨_,enters.after added⟩
    · exact ⟨_,added⟩
    · obtain ⟨new,enters⟩ := runPosts_enters answer.called
      have taken := setPending_unmoved cell' answer.removed
      have told : Unmoved ((addPair env b node n msg).setNode node { m with pendingIos := answer.pending })
          (((addPair env b node n msg).setNode node { m with pendingIos := answer.pending }).emit
            (.answered io msg)) :=
        .of_same rfl (by simp [Quiet,Event.postedTo,Event.writtenTo]) rfl (Nat.le_refl _)
      have left := ((added.then taken).then told).then (completed_unmoved _ io answer.r (answerIo msg))
      rw [(banoFreeIo_cases answer.final).1]
      have stopped : Unmoved answer.mid { answer.mid with timers := answer.timers } := .silent rfl rfl (Nat.le_refl _)
      exact ⟨_,(enters.after left).then (stopped.then (released_unmoved _ io))⟩
  · have quiet : Quiet es := by
      rcases shape with rfl | ⟨_,rfl⟩ <;> simp [Quiet,Event.postedTo,Event.writtenTo]
    exact traced_enters quiet called

theorem registered_unmoved (b : Base) (nodes : LinkedList Ptr) (addr : U32) (socket : Ptr) (quiet : Quiet es) :
    Unmoved b { registered b nodes addr socket with trace := b.trace ++ es } := by
  have cells : ∀ p, p = b.nodeMem.next ∨ (registered b nodes addr socket).nodeMem.cell p = b.nodeMem.cell p := by
    intro p
    by_cases here : p = b.nodeMem.next
    · exact .inl here
    · exact .inr (Heap.alloc_cell_other here _)
  refine .of_quiet rfl quiet (fun p => ?_) (fun p io member => ?_) (Nat.le_refl _)
  · rcases cells p with rfl | same
    · simp [queued,registered,iosOf,banoNodeAlloc]
    · exact queued_same same
  · rcases cells p with rfl | same
    · simp [awaiting,registered,iosOf,banoNodeAlloc] at member
    · exact awaiting_same (b := b) same ▸ member

theorem handleBanoMsg_enters (result : handleBanoMsg linfo env b socket msg = some (err,b')) :
    ∃ new, Enters b b' new := by
  rcases handleBanoMsg_cases result with rfl | ⟨node,_,handled⟩ | ⟨nodes,mid,posts,es,_,called,shape,handled⟩
  · exact ⟨_,Unmoved.refl b'⟩
  · exact dispatch_enters handled
  · have quiet : Quiet es := by
      rcases shape with rfl | rfl <;> simp [Quiet,Event.postedTo,Event.writtenTo]
    obtain ⟨new,enters⟩ := runPosts_enters called
    obtain ⟨later,entered⟩ := dispatch_enters handled
    exact ⟨_,(enters.after (registered_unmoved b nodes _ socket quiet)).trans entered⟩

theorem handleHttpdMsg_enters (result : handleHttpdMsg env b msg = some (err,b')) : ∃ new, Enters b b' new := by
  by_cases rst : msg.op = .rst
  · rcases handleHttpdMsg_rst rst result with ⟨_,rfl⟩ | ⟨node,n,_,cell,rfl⟩
    · exact ⟨_,Unmoved.refl _⟩
    · have stored := setPairs_unmoved cell (resetPairs env n msg.key) quiet_nil
      rw [List.append_nil] at stored
      exact ⟨_,stored⟩
  · rcases handleHttpdMsg_posts rst result with rfl | ⟨p,posted⟩
    · exact ⟨_,Unmoved.refl _⟩
    · exact postNew_enters posted

theorem readMsg_enters (result : readMsg linfo env b li (.msg msg) = some b') : ∃ new, Enters b b' new := by
  cases frame : snrfFrame b li env msg with
  | none =>
    obtain rfl := readMsg_same frame result
    exact ⟨_,Unmoved.refl _⟩
  | some heard =>
    obtain ⟨ret,handled⟩ := snrfFrame_handled frame result
    exact handleBanoMsg_enters handled

/-- The head of the queue is written, and then others enter. -/
theorem head_serves {b mid b' : Base} (lined : Lined b) (cell : b.nodeMem.cell node = some n)
    (entries : n.postedIos.entries = (li,io) :: rest) (enters : Enters (b.emit (.written node io addr frame)) mid new)
    (trace : b'.trace = mid.trace ++ es) (quiet : Quiet es) (next : mid.ioMem.next ≤ b'.ioMem.next)
    (waits : ∀ p, queued b' p = if p = node then rest.map Prod.snd ++ new node else queued mid p)
    (awaits : ∀ p, ∀ i ∈ awaiting b' p, i ∈ awaiting mid p ∨ p = node ∧ i = io) : Serves b b' := by
  have posts : ∀ p, postings p b'.trace = postings p b.trace ++ new p := by
    intro p
    rw [trace,postings_append,quiet.postings,List.append_nil,enters.posts]
    simp [Base.emit,postings,Event.postedTo]
  have writes : ∀ p, writings p b'.trace = writings p b.trace ++ if p = node then [io] else [] := by
    intro p
    rw [trace,writings_append,quiet.writings,List.append_nil,enters.writes,Base.emit,writings_append]
    by_cases here : p = node
    · subst here
      simp [writings,Event.writtenTo]
    · simp [writings,Event.writtenTo,here,Ne.symm here]
  have fresh : ∀ p, ∀ i ∈ new p, i ∉ postings p b.trace := fun p i member known =>
    Nat.not_le_of_lt (lined.old p i known) (enters.fresh p i member).1
  refine ⟨⟨fun p i member => ?_,fun p i member => ?_⟩,fun p => ?_⟩
  · rw [posts] at member
    rcases List.mem_append.mp member with known | entered
    · exact (lined.old p i known).trans_le (enters.next.trans next)
    · exact (enters.fresh p i entered).2.trans_le next
  · rw [writes]
    rcases awaits p i member with before | ⟨rfl,rfl⟩
    · exact List.mem_append_left _ (lined.sent p i (enters.awaits p i before))
    · simp
  · have later := fun served waiting =>
      Queue.Steps.enter (postings p b.trace) served waiting (enters.apart p) (fresh p)
    rw [queueOf,queueOf,posts,writes,waits]
    by_cases here : p = node
    · subst here
      have serve := Queue.Step.serve (postings p b.trace) (writings p b.trace) io (rest.map Prod.snd)
      rw [queued_cell cell,iosOf,entries,if_pos rfl,if_pos rfl]
      exact .head serve (later _ _)
    · rw [if_neg here,if_neg here,List.append_nil,enters.waits]
      exact later _ _

/-- A write of what is posted first. -/
theorem postIo_serves {b b' : Base} (lined : Lined b) (placed : Placed b status) (cell : b.nodeMem.cell node = some n)
    (entries : n.postedIos.entries = (li,io) :: rest)
    (mallocs : env.mallocPending = true ∧ env.mallocTimer = true ∧ env.mallocTimerItem = true)
    (result : postIo env b node li = some b') :
    Serves b b' ∧ ∃ n' more, b'.nodeMem.cell node = some n' ∧ n'.postedIos.entries = rest ++ more := by
  have listed : (li,io) ∈ n.postedIos.entries := by simp [entries]
  obtain ⟨n',io',r,cell',data,ioCell,_,cases⟩ := postIo_cases result
  obtain rfl := Option.some.inj (cell.symm.trans cell')
  obtain rfl := Option.some.inj ((LinkedList.data_eq_some.mpr listed).symm.trans data)
  obtain ⟨_,r',ioCell',_,wait⟩ := placed.held io _ ((placed.posted node n cell li io).mp listed)
  obtain rfl := Option.some.inj (ioCell.symm.trans ioCell')
  rcases cases with ⟨waits,⟨q,failed,_⟩ | ⟨⟨moved⟩⟩⟩ | ⟨_,⟨done⟩⟩
  · obtain ⟨q',_,added,_⟩ := placed.tailed.add (node,none)
    simp [mallocs,wait waits,added] at failed
  · obtain ⟨t,q,timers,posted,_,_,removed,rfl⟩ := moved
    obtain ⟨pending,added,listed',_⟩ := n.pendingIos.addTail_true io
    have gone := del_head removed entries
    have live : (b.emit (.written node io n.addr (encMsg b n r.msg))).nodeMem.cell node = some n := cell
    refine ⟨head_serves lined cell entries (Unmoved.refl _) (List.append_nil _).symm quiet_nil (Nat.le_refl _)
      (fun p => ?_) (fun p i member => ?_),
      { n with postedIos := posted, pendingIos := (n.pendingIos.addTail env.mallocPending io).2 },[],
      by simp [Base.emit,cell],by simp [gone]⟩
    · rw [queued_modify live rfl,iosOf,gone,List.append_nil]
    · rw [awaiting_modify live rfl] at member
      split at member
      · next here =>
        subst here
        rw [awaiting_cell live]
        simpa [iosOf,mallocs,added,listed',or_comm] using member
      · exact .inl member
  · obtain ⟨posts,mid,m,posted,called,live,removed,rfl⟩ := done
    obtain ⟨new,entered⟩ := runPosts_enters called
    have enters :=
      entered.after (completed_unmoved (b.emit (.written node io n.addr (encMsg b n r.msg))) io r writtenIo)
    obtain ⟨m',live',_,longer⟩ := (runPosts_grows called).node node n (by rw [completed_nodeMem]; exact cell)
    obtain rfl := Option.some.inj (live.symm.trans live')
    obtain ⟨more,longer⟩ := longer
    rw [entries] at longer
    have gone : posted.entries = rest ++ more := del_head removed longer.symm
    have whole : queued mid node = queued b node ++ new node := enters.waits node
    rw [queued_cell live,queued_cell cell,iosOf,iosOf,entries,← longer] at whole
    have after : (rest ++ more).map Prod.snd = rest.map Prod.snd ++ new node := by simpa using whole
    have quiet : Quiet [Event.released io] := by simp [Quiet,Event.postedTo,Event.writtenTo]
    refine ⟨head_serves lined cell entries enters rfl quiet
      (Nat.le_refl _) (fun p => ?_) (fun p i member => ?_),{ m with postedIos := posted },more,
      by simp [Base.setNode,released,live],gone⟩
    · rw [queued_modify live rfl,iosOf,gone,after]
    · exact .inl (awaiting_kept live rfl (by simp) p i member)

/-- An io that was written enters the queue again. -/
theorem again_serves {b b' : Base} (lined : Lined b) (sent : io ∈ writings node b.trace) (trace : b'.trace = b.trace)
    (next : b'.ioMem.next = b.ioMem.next) (waits : ∀ p, queued b' p = if p = node then
      queued b node ++ [io] else queued b p)
    (awaits : ∀ p, ∀ i ∈ awaiting b' p, i ∈ awaiting b p) : Serves b b' := by
  refine ⟨⟨fun p i member => ?_,fun p i member => ?_⟩,fun p => ?_⟩
  · rw [next]
    exact lined.old p i (trace ▸ member)
  · rw [trace]
    exact lined.sent p i (awaits p i member)
  · rw [queueOf,queueOf,trace,waits]
    split
    · next here =>
      subst here
      exact .single (.again (queueOf b p) io sent)
    · exact .refl

theorem expirePending_serves {b b' : Base} (lined : Lined b) (placed : Placed b status)
    (result : expirePending env b t = some b') : Serves b b' := by
  obtain ⟨⟨node,it,n,io,r,mid,n',pending,timers,_,cell,listed,ioCell,expired,cell',removed,_,rfl⟩⟩ :=
    expirePending_cases result
  have counted : Unmoved b (b.setIo io (expiring r)) := .silent rfl rfl (Nat.le_refl _)
  have ended : Unmoved mid { mid.setNode node { n' with pendingIos := pending } with timers := timers } :=
    (setPending_unmoved cell' removed).then (Unmoved.silent rfl rfl (Nat.le_refl _))
  have live : (b.setIo io (expiring r)).ioMem.cell io = some (expiring r) := by simp [Base.setIo,ioCell]
  rcases expireIo_cases live expired with ⟨_,posts,mid',called,rfl⟩ | ⟨_,dest,d,posted,own,dCell,entries,rfl⟩
  · obtain ⟨new,entered⟩ := runPosts_enters called
    have enters := entered.after (counted.then (completed_unmoved _ io (expiring r) timeoutIo))
    exact ((enters.then (released_unmoved mid' io)).then ended).serves lined
  · -- the io awaited a reply, so that it was written
    obtain ⟨t',mine⟩ := (placed.pending node n cell it io).mp listed
    obtain ⟨_,_,r',ioCell',home,_⟩ := placed.held io _ mine
    obtain rfl := Option.some.inj (ioCell.symm.trans ioCell')
    obtain rfl : node = dest := Option.some.inj (home.symm.trans own)
    have sent : io ∈ writings node b.trace := by
      apply lined.sent node io
      rw [awaiting_cell cell]
      exact List.mem_map_of_mem (f := Prod.snd) listed
    have again : Serves b ((b.setIo io (expiring r)).setNode node { d with postedIos := posted }) := by
      have here : b.nodeMem.cell node = some d := dCell
      refine again_serves lined sent rfl rfl (fun p => ?_) (awaiting_kept here rfl fun _ listed => listed)
      have tailed : iosOf posted = queued b node ++ [io] := by simp [queued_cell here,iosOf,entries]
      rw [queued_modify here rfl,tailed]
    exact again.trans (ended.serves again.lined)

theorem selectTimer_serves {s s' : Loop} (lined : Lined s.base) (placed : Placed s.base status)
    (sooner : ∀ t tv', banoTimerGetNext s.base.timers = some (some (t,tv')) → tv.ms ≤ tv'.ms)
    (result : selectTimer ready tv env s = some s') : Serves s.base s'.base := by
  rcases selectTimer_cases result with rfl | ⟨t,tv',timers,head,updated,cases⟩
  · exact lined.same
  have passed : Unmoved s.base { s.base with timers := timers } := .silent rfl rfl (Nat.le_refl _)
  have start := passed.serves lined
  rcases cases with rfl | ⟨_,b,expired,rfl⟩ | ⟨_,b,q,called,_,rfl⟩
  · exact start
  · rcases placed.updated sooner with none | ⟨_,_,q,_,head',updated',_,_,_,placed'⟩
    · simp [head] at none
    obtain ⟨rfl,rfl⟩ := Prod.mk.inj (Option.some.inj (Option.some.inj (head.symm.trans head')))
    obtain rfl := Option.some.inj (updated.symm.trans updated')
    exact start.trans (expirePending_serves start.lined placed' expired)
  · obtain ⟨new,entered⟩ := runPosts_enters called
    have fired : Unmoved { s.base with timers := timers } (Base.emit { s.base with timers := timers } .timerFn) :=
      .of_same rfl (by simp [Quiet,Event.postedTo,Event.writtenTo]) rfl (Nat.le_refl _)
    have stopped : Unmoved b { b with timers := q } := .silent rfl rfl (Nat.le_refl _)
    exact ((entered.after (passed.then fired)).then stopped).serves lined

/-- The traversal of a node's posted ios is at the first of them. -/
def AtHead (s : Loop) : Prop := ∀ node it, s.control = .writing node it →
  ∃ n io rest, s.base.nodeMem.cell node = some n ∧ n.postedIos.entries = (it,io) :: rest

theorem AtHead.idle {s : Loop} (idle : s.control = .idle) : AtHead s := by simp [AtHead,idle]

/-- A step that leaves the loop where it was, and lets ios enter. -/
theorem Enters.idle {s : Loop} (enters : Enters s.base b new) (lined : Lined s.base) (idle : s.control = .idle) :
    Serves s.base b ∧ AtHead { s with base := b } := ⟨enters.serves lined,.idle idle⟩

theorem idleStep_serves {s s' : Loop} (steady : Steady s) (lined : Lined s.base) (idle : s.control = .idle)
    (allowed : label.Allowed s) (taken : Loop.idleStep linfo label s = some s') :
    Serves s.base s'.base ∧ AtHead s' := by
  obtain ⟨status,alive⟩ := steady.alive
  cases label with
  | newNode li posts =>
    obtain ⟨b,called,rfl⟩ := bind_some.mp taken
    obtain ⟨node,_,called⟩ := Option.bind_eq_some_iff.mp called
    split at called
    · obtain ⟨new,enters⟩ := traced_enters (by simp [Quiet,Event.postedTo,Event.writtenTo]) called
      exact enters.idle lined idle
    · obtain rfl := Option.some.inj called
      exact ⟨lined.same,.idle idle⟩
  | post p =>
    obtain ⟨b,posted,rfl⟩ := bind_some.mp taken
    obtain ⟨new,enters⟩ := postNew_enters posted
    exact enters.idle lined idle
  | addTimer mallocTimer mallocItem =>
    simp only [Loop.idleStep] at taken
    split at taken
    · obtain ⟨⟨timer,timers⟩,_,taken⟩ := Option.bind_eq_some_iff.mp taken
      have added : Unmoved s.base { s.base with timers := timers } := .silent rfl rfl (Nat.le_refl _)
      simp only at taken
      split at taken
      · obtain rfl := Option.some.inj taken
        exact ⟨added.serves lined,by simp [AtHead]⟩
      · obtain rfl := Option.some.inj taken
        exact ⟨added.serves lined,.idle idle⟩
    · obtain rfl := Option.some.inj taken
      exact ⟨lined.same,.idle idle⟩
  | peek li env msg =>
    obtain ⟨b,handled,rfl⟩ := bind_some.mp taken
    obtain ⟨new,enters⟩ := readMsg_enters handled
    exact enters.idle lined idle
  | read li env outcome =>
    obtain ⟨b,handled,rfl⟩ := bind_some.mp taken
    cases outcome with
    | again =>
      obtain ⟨_,_,handled⟩ := Option.bind_eq_some_iff.mp handled
      obtain ⟨_,_,handled⟩ := Option.bind_eq_some_iff.mp handled
      obtain rfl := Option.some.inj handled
      exact ⟨lined.same,.idle idle⟩
    | error => exact allowed.2.2.elim
    | msg msg =>
      obtain ⟨new,enters⟩ := readMsg_enters handled
      exact enters.idle lined idle
  | write li =>
    obtain ⟨node,listed,taken⟩ := Option.bind_eq_some_iff.mp taken
    obtain ⟨n,cell,rfl⟩ := bind_some.mp taken
    refine ⟨lined.same,fun p it writing => ?_⟩
    rw [LinkedList.head_eq] at writing
    cases entries : n.postedIos.entries with
    | nil => simp [entries,Bano.cursor] at writing
    | cons e rest =>
      obtain ⟨rfl,rfl⟩ : node = p ∧ e.1 = it := by simpa [entries,Bano.cursor] using writing
      exact ⟨n,e.2,rest,cell,entries⟩
  | postIo env => cases taken
  | select ready tv env =>
    obtain ⟨_,_,_,sooner⟩ := allowed
    have same : s'.control = s.control := by
      rcases selectTimer_cases taken with rfl | ⟨_,_,_,_,_,rfl | ⟨_,_,_,rfl⟩ | ⟨_,_,_,_,_,rfl⟩⟩ <;> rfl
    exact ⟨selectTimer_serves lined alive.placed sooner taken,.idle (same.trans idle)⟩
  | selectFails =>
    obtain rfl := Option.some.inj taken
    exact ⟨lined.same,by simp [AtHead]⟩
  | close => exact allowed.elim

theorem service_serves {s s' : Loop} (steady : Steady s) (lined : Lined s.base) (head : AtHead s)
    (allowed : service.Allowed s)
    (taken : Service.step linfo service s = some s') : Serves s.base s'.base ∧ AtHead s' := by
  cases service with
  | http li env msg =>
    obtain ⟨err,b,handled,rfl⟩ := service_http taken
    obtain ⟨new,enters⟩ := handleHttpdMsg_enters handled
    exact enters.idle lined allowed.1
  | loop label =>
    have taken : Loop.step linfo label s = some s' := taken
    cases control : s.control with
    | idle => exact idleStep_serves steady lined control allowed (by simpa only [Loop.step,control] using taken)
    | writing node it =>
      obtain ⟨status,alive⟩ := steady.alive
      obtain ⟨n,io,rest,cell,entries⟩ := head node it control
      cases label with
      | postIo env =>
        obtain ⟨_,_,mallocs,_⟩ := allowed
        have next : n.postedIos.next it = some (first rest none) :=
          LinkedList.next_eq (entries.trans (List.nil_append _).symm)
        simp only [Loop.step,control,cell,Option.bind_eq_bind,Option.bind_some,next] at taken
        obtain ⟨b,written,rfl⟩ := bind_some.mp taken
        obtain ⟨serves,n',more,cell',entries'⟩ := postIo_serves lined alive.placed cell entries mallocs written
        refine ⟨serves,fun p li writing => ?_⟩
        cases rest with
        | nil => simp [Bano.cursor] at writing
        | cons e rest =>
          obtain ⟨rfl,rfl⟩ : node = p ∧ e.1 = li := by simpa [Bano.cursor] using writing
          exact ⟨n',e.2,rest ++ more,cell',entries'⟩
      | _ => simp [Loop.step,control] at taken
    | stopped =>
      cases label <;> simp [Loop.step,control] at taken
      exact allowed.elim
    | closed => cases label <;> simp [Loop.step,control] at taken

theorem Idle.lined {b : Base} (idle : Idle b) : Lined b := by
  refine ⟨fun node io member => ?_,fun node io member => ?_⟩
  · simp [idle.trace,postings] at member
  · cases cell : b.nodeMem.cell node with
    | none => simp [awaiting,cell] at member
    | some n => simp [awaiting,cell,iosOf,(idle.unused node n cell).2] at member

/-- Every allowed run serves the queues of the nodes. -/
theorem reach_serves {s s' : Loop} (running : Running s) (lined : Lined s.base) (head : AtHead s)
    (noTimer : linfo.timerFn = false)
    (reach : Reach (Service.step linfo) Service.Allowed s services s') : Serves s.base s'.base ∧ AtHead s' := by
  have kept := reach.invariant (fun t => Running t ∧ Serves s.base t.base ∧ AtHead t) ⟨running,lined.same,head⟩
    fun service u v ⟨running,serves,head⟩ allowed taken => by
      obtain ⟨v',taken',running',_⟩ := running.step noTimer allowed
      obtain rfl := Option.some.inj (taken.symm.trans taken')
      obtain ⟨serves',head'⟩ := service_serves running.toSteady serves.lined head allowed taken
      exact ⟨running',serves.trans serves',head'⟩
  exact kept.2

theorem Idle.queueOf {b : Base} (idle : Idle b) (node : Ptr) : queueOf b node = .empty := by
  have none : queued b node = [] := by
    cases cell : b.nodeMem.cell node with
    | none => simp [queued,cell]
    | some n => simp [queued,cell,iosOf,(idle.unused node n cell).1]
  rw [Bano.queueOf,idle.trace,none]
  rfl

/-- The ios of a node are first written in the order in which they are posted, and
what it has queued is written before anything that is queued later. -/
theorem written_in_order (stocked : Stocked b) (noTimer : linfo.timerFn = false)
    (reach : Reach (Service.step linfo) Service.Allowed ⟨b,none,.idle⟩ services s) (node : Ptr) :
    (writings node s.base.trace ++ queued s.base node).eraseDups = postings node s.base.trace ∧
    ∀ services' s', Reach (Service.step linfo) Service.Allowed s services' s' →
      writings node s.base.trace ++ queued s.base node <+: writings node s'.base.trace ++ queued s'.base node := by
  have start : AtHead ⟨b,none,.idle⟩ := .idle rfl
  obtain ⟨serves,head⟩ := reach_serves stocked.running stocked.toIdle.lined start noTimer reach
  refine ⟨?_,fun services' s' reach' => ?_⟩
  · have steps := serves.steps node
    rw [stocked.toIdle.queueOf node] at steps
    exact Queue.ordered_empty.steps steps
  · have running := (reach_running stocked.running noTimer reach).1
    exact ((reach_serves running serves.lined head noTimer reach').1.steps node).line

def Service.check : Service → Loop → Bool
  | .loop label, s => label.check s
  | .http .., _ => false

theorem Service.check_allowed {service : Service} (check : service.check s = true) : service.Allowed s := by
  cases service with
  | loop label => exact Label.check_allowed check
  | http li env msg => cases check

/-- Two GETs are posted and written, and the first is posted again. -/
def twoGets : List Service :=
  [.loop (.post getPost),.loop (.post getPost),.loop (.write 0),.loop (.postIo bareWrite),.loop (.postIo bareWrite),
    .loop (.select false ⟨0,0⟩ retryEnv)]

theorem written_in_order_gets : ∃ s,
    runChecked (Service.step bareLoop) Service.check twoGets ⟨twoSockets,none,.idle⟩ = some s ∧
    writings 0 s.base.trace ++ queued s.base 0 = [0,1,0] ∧ postings 0 s.base.trace = [0,1] := by
  obtain ⟨s,ran,line⟩ : ∃ s, runChecked (Service.step bareLoop) Service.check twoGets
    ⟨twoSockets,none,.idle⟩ = some s ∧
      writings 0 s.base.trace ++ queued s.base 0 = [0,1,0] := Option.map_eq_some_iff.mp rfl
  have reach : Reach (Service.step bareLoop) Service.Allowed ⟨twoSockets,none,.idle⟩ twoGets s :=
    .of_checked (fun _ _ _ => Service.check_allowed) ran
  have order := (written_in_order EventLoop.twoSockets_stocked rfl reach 0).1
  rw [line] at order
  exact ⟨s,ran,line,order.symm⟩

end Bano
