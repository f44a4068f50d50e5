import Bano.Lasting

/-! What one step of the loop does to one io: it leaves it alone, posts it, writes it, answers it, or lets
its timer expire. The story of an io is what is noted about it. -/
namespace Bano

open Lib

/-- A note of a run: its events, and the timers of ios as they are armed and expire. -/
inductive Note where
  | event (e : Event)
  | armed (io t : Ptr)
  | expired (io t : Ptr)
  deriving DecidableEq

def Note.io : Note → Option Ptr
  | .event e => e.io
  | .armed io _ => some io
  | .expired io _ => some io

def story (log : List Note) (io : Ptr) : List Note := log.filter fun e => e.io = some io

@[simp] theorem story_nil (io : Ptr) : story [] io = [] := rfl

@[simp] theorem story_append (log es : List Note) (io : Ptr) : story (log ++ es) io = story log io ++ story es io :=
  List.filter_append _ _

/-- The records of some events. -/
def noted (es : List Event) : List Note := es.map .event

@[simp] theorem noted_append (es fs : List Event) : noted (es ++ fs) = noted es ++ noted fs := List.map_append

theorem story_none (others : ∀ e ∈ es, Event.io e ≠ some io) : story (noted es) io = [] := by
  apply List.filter_eq_nil_iff.mpr
  intro e member
  obtain ⟨e,listed,rfl⟩ := List.mem_map.mp member
  exact fun same => others e listed (of_decide_eq_true same)

theorem story_all (mine : ∀ e ∈ es, Event.io e = some io) : story (noted es) io = noted es := by
  apply List.filter_eq_self.mpr
  intro e member
  obtain ⟨e,listed,rfl⟩ := List.mem_map.mp member
  exact decide_eq_true (mine e listed)

/-- What a callback, or a step about another io, does to an io. -/
inductive Spawned (b b' : Base) (status status' : Ptr → Option Status) (es : List Event) (io : Ptr) : Prop where
  | same : status' io = status io → b'.ioMem.cell io = b.ioMem.cell io → story (noted es) io = [] →
      Spawned b b' status status' es io
  | born (q : Request) (node li : Ptr) : status io = none → status' io = some (.posted node li) →
      b'.ioMem.cell io = some { q.io with node := some node } →
      story (noted es) io = [.event (.posted node io { q.io with node := some node })] →
      Spawned b b' status status' es io

theorem Spawned.trans {a b c : Base} (one : Spawned a b status status' es io)
    (other : Spawned b c status' status'' fs io) :
    Spawned a c status status'' (es ++ fs) io := by
  cases one with
  | same kept cell quiet =>
    cases other with
    | same kept' cell' quiet' =>
      exact .same (kept'.trans kept) (cell'.trans cell) (by rw [noted_append,story_append,quiet,quiet']; rfl)
    | born q node li unknown posted cell' accepted =>
      exact .born q node li (kept ▸ unknown) posted cell' (by rw [noted_append,story_append,quiet,accepted]; rfl)
  | born q node li unknown posted cell accepted =>
    cases other with
    | same kept' cell' quiet' =>
      exact .born q node li unknown (kept'.trans posted) (cell'.trans cell)
        (by rw [noted_append,story_append,quiet',accepted]; rfl)
    | born _ _ _ unknown' => simp [posted] at unknown'

theorem Spawned.known {b b' : Base} (spawned : Spawned b b' status status' es io) (known : status io = some s) :
    status' io = some s ∧ b'.ioMem.cell io = b.ioMem.cell io ∧ story (noted es) io = [] := by
  cases spawned with
  | same kept cell quiet => exact ⟨kept.trans known,cell,quiet⟩
  | born _ _ _ unknown => simp [known] at unknown

/-- Steps about no io but `i`. -/
structure Turn (b b' : Base) (status status' : Ptr → Option Status) (es : List Event) (i : Option Ptr) : Prop where
  placed : Placed b' status'
  trace : b'.trace = b.trace ++ es
  others : ∀ io, i ≠ some io → Spawned b b' status status' es io

theorem Turn.trans {a b c : Base} (one : Turn a b status status' es i) (other : Turn b c status' status'' fs i) :
    Turn a c status status'' (es ++ fs) i :=
  ⟨other.placed,by rw [other.trace,one.trace,List.append_assoc],
    fun io apart => (one.others io apart).trans (other.others io apart)⟩

theorem Turn.weaken {b b' : Base} (turn : Turn b b' status status' es none) (i : Option Ptr) :
    Turn b b' status status' es i :=
  ⟨turn.placed,turn.trace,fun io _ => turn.others io (by simp)⟩

/-- A step that moves no io. -/
theorem Placed.turn {b b' : Base} (placed : Placed b' status) (trace : b'.trace = b.trace ++ es)
    (ios : ∀ io, i ≠ some io → b'.ioMem.cell io = b.ioMem.cell io)
    (others : ∀ io, i ≠ some io → story (noted es) io = []) :
    Turn b b' status status es i := ⟨placed,trace,fun io apart => .same rfl (ios io apart) (others io apart)⟩

/-- A step that moves `i` and changes only its record. -/
theorem Placed.moved {b b' : Base} (placed : Placed b' (Function.update status i (some s)))
    (trace : b'.trace = b.trace ++ es)
    (ios : ∀ io, io ≠ i → b'.ioMem.cell io = b.ioMem.cell io) (others : ∀ io, io ≠ i → story (noted es) io = []) :
    Turn b b' status (Function.update status i (some s)) es (some i) := by
  refine ⟨placed,trace,fun io apart => ?_⟩
  have other : io ≠ i := fun same => apart (same ▸ rfl)
  exact .same (Function.update_of_ne other _ _) (ios io other) (others io other)

theorem postNew_turn {b b' : Base} (placed : Placed b status) (result : postNew b p = some b') :
    ∃ status' es, Turn b b' status status' es none := by
  rcases postNew_cases result with rfl | ⟨n,posted,cell,entries,_,rfl⟩
  · refine ⟨status,[],placed.frame (fun q m live => .inl ⟨m,live,rfl,rfl⟩) (fun q m live => ⟨m,live⟩) ?_ ?_
      (Nat.le_succ _) placed.tailed (fun _ => Iff.rfl) (fun _ => rfl) (fun _ => Iff.rfl),by simp,fun io _ => ?_⟩
    · intro io r cell
      exact ⟨r,by rw [Heap.alloc_erase_cell,cell],rfl,rfl,rfl,rfl⟩
    · intro io _ gone
      rw [Heap.alloc_erase_cell,gone]
    · exact .same rfl (Heap.alloc_erase_cell _ _ _) rfl
  · have unknown : status b.ioMem.next = none := by
      cases known : status b.ioMem.next with
      | none => rfl
      | some s => exact (Nat.lt_irrefl _ (placed.fresh _ s known)).elim
    refine ⟨_,_,accepted_placed placed cell entries p.request.retryMs_waits,rfl,fun io _ => ?_⟩
    by_cases here : io = b.ioMem.next
    · subst here
      exact .born p.request p.node n.postedIos.nextItem unknown (Function.update_self _ _ _) (by simp [accepted])
        (story_all (by simp [Event.io]))
    · refine .same (Function.update_of_ne here _ _) (Heap.alloc_cell_other here _) (story_none ?_)
      simp [Event.io,Ne.symm here]

theorem runPosts_turn {b b' : Base} (placed : Placed b status) (result : runPosts posts b = some b') :
    ∃ status' es, Turn b b' status status' es none := by
  refine runPosts_induct (P := fun mid => ∃ status' es, Turn b mid status status' es none) ?_ result
    ⟨status,[],placed.turn (by simp) (fun _ _ => rfl) fun _ _ => rfl⟩
  rintro mid p mid' ⟨status',es,turn⟩ posted
  obtain ⟨status'',fs,next⟩ := postNew_turn turn.placed posted
  exact ⟨status'',es ++ fs,turn.trans next⟩

/-- A callback that follows events about no io. -/
theorem traced_turn {b b' : Base} (placed : Placed b status) (silent : ∀ e ∈ es, Event.io e = none)
    (result : runPosts posts { b with trace := b.trace ++ es } = some b') :
    ∃ status' fs, Turn b b' status status' fs none := by
  have quiet : ∀ e ∈ es, ∀ node i r, e ≠ .posted node i r := by
    rintro e member node i r rfl
    simpa [Event.io] using silent _ member
  have placed' : Placed { b with trace := b.trace ++ es } status := placed.traced es quiet
  have start : Turn b { b with trace := b.trace ++ es } status status es none :=
    placed'.turn rfl (fun _ _ => rfl) fun io _ => story_none fun e member => by simp [silent e member]
  obtain ⟨status',fs,called⟩ := runPosts_turn placed' result
  exact ⟨status',es ++ fs,start.trans called⟩

/-- Nothing about `i` was in the middle of being answered. -/
theorem Turn.settled {b b' : Base} (turn : Turn b b' status status' es i) (settled : Settled status)
    (own : ∀ io, i = some io → ∀ t, status' io ≠ some (.taken t)) : Settled status' := by
  intro io t taken
  by_cases here : i = some io
  · exact own io here t taken
  · cases turn.others io here with
    | same kept => exact settled io t (kept ▸ taken)
    | born _ _ _ _ posted => simp [posted] at taken

/-- A completion function is called, and posts. -/
theorem completed_turn {b mid : Base} (placed : Placed b status) (mine : status io = some s)
    (cell : b.ioMem.cell io = some r)
    (own : (f r).node = r.node) (flags : (f r).flags = r.flags) (ms : (f r).retryMs = r.retryMs)
    (timer : (f r).timer = r.timer) (called : runPosts posts (completed b io r f) = some mid) :
    ∃ status' es, Turn b mid status status' es (some io) ∧ status' io = some s ∧
      story (noted es) io = noted (completion io r f) := by
  have done := completed_placed placed cell own flags ms timer
  have about : ∀ e ∈ completion io r f, e.io = some io := by
    unfold completion
    split <;> simp [Event.io]
  have start : Turn b (completed b io r f) status status (completion io r f) (some io) := by
    refine done.turn (completed_trace b io r f) (fun i apart => ?_) fun i apart => story_none fun e member same => ?_
    · have other : i ≠ io := fun same => apart (same ▸ rfl)
      unfold completed
      split
      · exact Heap.modify_cell_other other _ _
      · rfl
    · exact apart ((about e member).symm.trans same)
  obtain ⟨status',fs,turn⟩ := runPosts_turn done called
  obtain ⟨kept,_,quiet⟩ := (turn.others io (by simp)).known mine
  refine ⟨status',_,start.trans (turn.weaken _),kept,?_⟩
  rw [noted_append,story_append,quiet,story_all about,List.append_nil]

/-- What writing does to the io that is written. -/
inductive Wrote (b : Base) (node : Ptr) (n : BanoNode) (io : Ptr) (r : BanoIo) :
    Option Status → Option BanoIo → List Note → Prop where
  | waits (li t : Ptr) : r.waits = true →
      Wrote b node n io r (some (.pending node li t)) (some { r with timer := some t })
      [.event (.written node io n.addr (encMsg b n r.msg))]
  | done : r.waits = false → Wrote b node n io r (some .released) none
      (noted (.written node io n.addr (encMsg b n r.msg) :: completion io r writtenIo ++ [.released io]))

theorem postIo_turn {b b' : Base} (placed : Placed b status) (result : postIo env b node li = some b')
    (mallocs : env.mallocPending = true ∧ env.mallocTimer = true ∧ env.mallocTimerItem = true) :
    ∃ n io r status' es, b.nodeMem.cell node = some n ∧ n.postedIos.data li = some io ∧ b.ioMem.cell io = some r ∧
      status io = some (.posted node li) ∧ Turn b b' status status' es (some io) ∧
      Wrote b node n io r (status' io) (b'.ioMem.cell io) (story (noted es) io) := by
  obtain ⟨n,io,r,cell,data,ioCell,_,cases⟩ := postIo_cases result
  have mine := (placed.posted node n cell li io).mp (LinkedList.data_eq_some.mp data)
  obtain ⟨_,r',ioCell',_,wait⟩ := placed.held io _ mine
  obtain rfl := Option.some.inj (ioCell.symm.trans ioCell')
  let w := Event.written node io n.addr (encMsg b n r.msg)
  have placed' : Placed (b.emit w) status := placed.traced [w] (by simp [w])
  have about : ∀ i, i ≠ io → story (noted [w]) i = [] := fun i other =>
    story_none (by simp [w,Event.io,Ne.symm other])
  have own : story (noted [w]) io = noted [w] := story_all (by simp [w,Event.io])
  rcases cases with ⟨waits,⟨q,failed,_⟩ | ⟨⟨moved⟩⟩⟩ | ⟨unacked,⟨done⟩⟩
  · obtain ⟨q',_,added,_⟩ := placed.tailed.add (node,none)
    simp [mallocs,wait waits,added] at failed
  · have pending := moved_placed placed' mine cell ioCell waits mallocs moved
    have ioMem : b'.ioMem = b.ioMem.modify io fun _ => { r with timer := some moved.t } :=
      (congrArg Base.ioMem moved.final).trans rfl
    have final : b'.ioMem.cell io = some { r with timer := some moved.t } := by rw [ioMem]; simp [ioCell]
    have timer : moved.t = b.timers.timers.next := by
      obtain ⟨_,_,r',ioCell',_,_,_,timer⟩ := pending.held io _ (Function.update_self _ _ _)
      obtain rfl := Option.some.inj (final.symm.trans ioCell')
      exact Option.some.inj timer
    refine ⟨n,io,r,_,[w],cell,data,ioCell,mine,pending.moved (by rw [moved.final]; rfl) ?_ about,?_⟩
    · intro i other
      rw [ioMem]
      exact Heap.modify_cell_other other _ _
    · rw [Function.update_self,final,own,timer]
      exact .waits _ _ waits
  · have start : Turn b (b.emit w) status status [w] (some io) :=
      placed'.turn rfl (fun _ _ => rfl) fun i apart => about i fun same => apart (same ▸ rfl)
    obtain ⟨status',es,called,kept,told⟩ :=
      completed_turn (f := writtenIo) placed' mine ioCell rfl rfl rfl rfl done.called
    obtain ⟨_,mid,m,posted,_,live,removed,rfl⟩ := done
    have gone := released_posted called.placed kept live removed
    have ended : Turn mid ((released mid io).setNode node { m with postedIos := posted }) status'
        (Function.update status' io (some .released)) [.released io] (some io) :=
      gone.moved rfl (fun i other => Heap.erase_cell_other other _) fun i other =>
        story_none (by simp [Event.io,Ne.symm other])
    have last : story (noted [Event.released io]) io = noted [.released io] := story_all (by simp [Event.io])
    refine ⟨n,io,r,_,_,cell,data,ioCell,mine,(start.trans called).trans ended,?_⟩
    have final : (released mid io).ioMem.cell io = none := Heap.erase_cell_same _ _
    rw [Function.update_self,noted_append,noted_append,story_append,story_append,own,told,last,
      ← noted_append,← noted_append]
    show Wrote b node n io r _ ((released mid io).ioMem.cell io) _
    rw [final]
    exact .done unacked

theorem answer_turn {b b' : Base} (placed : Placed b status) (cell : b.nodeMem.cell node = some n)
    (answer : Answer b node n msg io b') : ∃ t status' es, status io = some (.pending node answer.li t) ∧
      Turn b b' status status' es (some io) ∧ status' io = some .released ∧ b'.ioMem.cell io = none ∧
      story (noted es) io = noted (.answered io msg :: completion io answer.r (answerIo msg) ++ [.released io]) := by
  obtain ⟨li,r,pending,posts,mid,t,timers,listed,ioCell,_,removed,called,timer,stopped,final⟩ := answer
  obtain ⟨t',mine⟩ := (placed.pending node n cell li io).mp listed
  obtain ⟨_,_,r',ioCell',_,_,_,timer'⟩ := placed.held io _ mine
  obtain rfl := Option.some.inj (ioCell.symm.trans ioCell')
  obtain rfl := Option.some.inj (timer.symm.trans timer')
  have taken := (taken_placed placed mine cell removed).traced [.answered io msg] (by simp)
  have start : Turn b ((b.setNode node { n with pendingIos := pending }).emit (.answered io msg)) status
      (Function.update status io (some (.taken t))) [.answered io msg] (some io) :=
    taken.moved rfl (fun _ _ => rfl) fun i other => story_none (by simp [Event.io,Ne.symm other])
  have keeps : (answerIo msg r).node = r.node ∧ (answerIo msg r).flags = r.flags ∧
      (answerIo msg r).retryMs = r.retryMs ∧ (answerIo msg r).timer = r.timer := by
    unfold answerIo
    split <;> exact ⟨rfl,rfl,rfl,rfl⟩
  obtain ⟨status',es,turn,kept,told⟩ :=
    completed_turn (f := answerIo msg) taken (Function.update_self _ _ _) ioCell keeps.1
    keeps.2.1 keeps.2.2.1 keeps.2.2.2 called
  obtain ⟨rfl,_⟩ := banoFreeIo_cases final
  have gone := released_taken turn.placed kept stopped
  have ended : Turn mid (released { mid with timers := timers } io) status'
    (Function.update status' io (some .released))
      [.released io] (some io) :=
    gone.moved rfl (fun i other => Heap.erase_cell_other other _) fun i other =>
      story_none (by simp [Event.io,Ne.symm other])
  have one : story (noted [Event.answered io msg]) io = noted [.answered io msg] := story_all (by simp [Event.io])
  have last : story (noted [Event.released io]) io = noted [.released io] := story_all (by simp [Event.io])
  refine ⟨t,_,_,mine,(start.trans turn).trans ended,Function.update_self _ _ _,Heap.erase_cell_same _ _,?_⟩
  rw [noted_append,noted_append,story_append,story_append,one,told,last,← noted_append,← noted_append]
  rfl

/-- What the expiry of its timer does to an io. -/
inductive Lapsed (io node : Ptr) (r : BanoIo) : Option Status → Option BanoIo → List Note → Prop where
  | reposted (li : Ptr) : r.retryCount ≠ 0 → Lapsed io node r (some (.posted node li)) (some (expiring r)) []
  | timedOut : r.retryCount = 0 → Lapsed io node r (some .released) none
      (noted (completion io (expiring r) timeoutIo ++ [.released io]))

theorem expirePending_turn {b b' : Base} (placed : Placed b status) (settled : Settled status)
    (member : t ∈ timersOf b.timers)
    (mallocs : env.mallocPosted = true) (expiry : Expiry env b t b') :
    ∃ status' es, status expiry.io = some (.pending expiry.node expiry.it t) ∧
      Turn b b' status status' es (some expiry.io) ∧
      Lapsed expiry.io expiry.node expiry.r (status' expiry.io) (b'.ioMem.cell expiry.io)
      (story (noted es) expiry.io) := by
  obtain ⟨node,it,n,io,r,mid,n',pending,timers,data,cell,listed,ioCell,expired,cell',removed,stopped,rfl⟩ := expiry
  obtain ⟨p,li,io',mine,⟨_,_,_,data',_⟩,unique⟩ := placed.designates settled member
  obtain ⟨rfl,rfl⟩ := unique node io ⟨n,it,cell,data,listed⟩
  obtain ⟨_,data'',_⟩ := placed.held io _ mine
  obtain ⟨_,rfl⟩ : node = node ∧ it = li := by simpa using data.symm.trans data''
  obtain ⟨_,_,r',ioCell',own,_⟩ := placed.held io _ mine
  obtain rfl := Option.some.inj (ioCell.symm.trans ioCell')
  have counted : Placed (b.setIo io (expiring r)) status := by
    have unchanged := placed.setIo ioCell (expiring_fields r).1 (expiring_fields r).2.1 (expiring_fields r).2.2.1
      (expiring_fields r).2.2.2 [] (by simp)
    simpa [Base.setIo] using unchanged
  have others : ∀ i, i ≠ io → (b.setIo io (expiring r)).ioMem.cell i = b.ioMem.cell i :=
    fun i other => Heap.modify_cell_other other _ _
  have live : (b.setIo io (expiring r)).ioMem.cell io = some (expiring r) := by simp [Base.setIo,ioCell]
  rcases expireIo_cases live expired with ⟨last,posts,mid',called,rfl⟩ | ⟨more,dest,d,posted,dest',dCell,entries,rfl⟩
  · have start : Turn b (b.setIo io (expiring r)) status status [] (some io) :=
      counted.turn (by simp [Base.setIo]) (fun i apart => others i fun same => apart (same ▸ rfl)) fun _ _ => rfl
    obtain ⟨status',es,turn,kept,told⟩ := completed_turn (f := timeoutIo) counted mine live rfl rfl rfl rfl called
    have gone := released_pending turn.placed kept cell' removed stopped
    have ended : Turn mid' { (released mid' io).setNode node { n' with pendingIos := pending } with
      timers := timers } status'
        (Function.update status' io (some .released)) [.released io] (some io) :=
      gone.moved rfl (fun i other => Heap.erase_cell_other other _) fun i other =>
        story_none (by simp [Event.io,Ne.symm other])
    have end' : story (noted [Event.released io]) io = noted [.released io] := story_all (by simp [Event.io])
    refine ⟨_,_,mine,(start.trans turn).trans ended,?_⟩
    have final : (released mid' io).ioMem.cell io = none := Heap.erase_cell_same _ _
    rw [Function.update_self,noted_append,story_append,List.nil_append,told,end',← noted_append]
    show Lapsed io node r _ ((released mid' io).ioMem.cell io) _
    rw [final]
    exact .timedOut (last.resolve_right (by simp [mallocs]))
  · obtain rfl := Option.some.inj (own.symm.trans dest')
    obtain rfl := Option.some.inj (cell.symm.trans dCell)
    have here : ((b.setIo io (expiring r)).setNode node { n with postedIos := posted }).nodeMem.cell node =
        some { n with postedIos := posted } := by simp [Base.setNode,dCell]
    obtain rfl := Option.some.inj (here.symm.trans cell')
    have again := reposted_placed counted mine cell entries removed stopped
    rw [← setNode_twice] at again
    refine ⟨_,[],mine,again.moved (by simp [Base.setNode,Base.setIo]) others (fun _ _ => rfl),?_⟩
    rw [Function.update_self]
    show Lapsed io node r _ ((b.setIo io (expiring r)).ioMem.cell io) _
    rw [live]
    exact .reposted _ more

/-- A pending io of the node is answered. -/
structure Replied (b b' : Base) (status status' : Ptr → Option Status) (es : List Event) (node : Ptr) (msg : BanoMsg)
    (io : Ptr) (r : BanoIo) : Prop where
  set : msg.op = msgOpSet
  reply : msg.has msgFlagReply = true
  pending : ∃ li t, status io = some (.pending node li t)
  cell : b.ioMem.cell io = some r
  answers : msg.answers r.msg = true
  released : status' io = some .released
  gone : b'.ioMem.cell io = none
  told : story (noted es) io = noted (.answered io msg :: completion io r (answerIo msg) ++ [.released io])

theorem addPair_turn {b : Base} (placed : Placed b status) (settled : Settled status)
    (cell : b.nodeMem.cell node = some n)
    (env : FrameEnv) (msg : BanoMsg) : ∃ es, Turn b (addPair env b node n msg) status status es none := by
  obtain ⟨added,_⟩ := addPair_carried placed settled cell env msg
  have same : addPair env b node n msg = _ := addPair_eq cell
  refine ⟨_,added.placed.turn (congrArg Base.trace same) (fun io _ => by rw [same]; rfl) fun io _ =>
    story_none fun e member => ?_⟩
  split at member
  · obtain rfl := List.mem_singleton.mp member
    simp [Event.io]
  · simp at member

theorem handleSetMsg_turn {b b' : Base} (placed : Placed b status) (settled : Settled status)
    (set : msg.op = msgOpSet)
    (result : handleSetMsg linfo env b msg node = some b') : ∃ status' es i, Turn b b' status status' es i ∧
      ∀ io, i = some io → ∃ r, Replied b b' status status' es node msg io r := by
  obtain ⟨n,cell,cases⟩ := handleSetMsg_cases result
  obtain ⟨es,added⟩ := addPair_turn placed settled cell env msg
  rcases cases with ⟨posts,fs,called,shape,_⟩ | ⟨reply,⟨_,rfl⟩ | ⟨m,io,live,⟨answer⟩⟩⟩
  · have silent : ∀ e ∈ fs, Event.io e = none := by
      rcases shape with rfl | rfl <;> simp [Event.io]
    obtain ⟨status',gs,turn⟩ := traced_turn added.placed silent called
    exact ⟨status',es ++ gs,none,added.trans turn,by simp⟩
  · exact ⟨status,es,none,added,by simp⟩
  · obtain ⟨t,status',fs,mine,turn,gone,cell',told⟩ := answer_turn added.placed live answer
    obtain ⟨_,record,quiet⟩ := (added.others io (by simp)).known mine
    refine ⟨status',es ++ fs,some io,(added.weaken _).trans turn,fun i same => ?_⟩
    obtain rfl := Option.some.inj same
    refine ⟨answer.r,set,reply,⟨_,t,mine⟩,record ▸ answer.cell,answer.answers,gone,cell',?_⟩
    rw [noted_append,story_append,quiet,told,List.nil_append]

theorem dispatch_turn {b b' : Base} (placed : Placed b status) (settled : Settled status)
    (result : dispatch linfo env b msg node = some b') : ∃ status' es i, Turn b b' status status' es i ∧
      ∀ io, i = some io → ∃ r, Replied b b' status status' es node msg io r := by
  rcases dispatch_cases result with ⟨set,handled⟩ | ⟨_,posts,fs,called,shape⟩
  · exact handleSetMsg_turn placed settled set handled
  · have silent : ∀ e ∈ fs, Event.io e = none := by
      rcases shape with rfl | ⟨_,rfl⟩ <;> simp [Event.io]
    obtain ⟨status',es,turn⟩ := traced_turn placed silent called
    exact ⟨status',es,none,turn,by simp⟩

theorem handleBanoMsg_turn {b b' : Base} (placed : Placed b status) (settled : Settled status)
    (result : handleBanoMsg linfo env b socket msg = some (err,b')) : ∃ status' es i, Turn b b' status status' es i ∧
      ∀ io, i = some io → ∃ node r, findNodeByAddr b (decMsg b msg).saddr = some (some node) ∧
        Replied b b' status status' es node (decMsg b msg) io r := by
  rcases handleBanoMsg_cases result with rfl | ⟨node,search,handled⟩ | ⟨nodes,mid,posts,es,_,called,shape,handled⟩
  · exact ⟨status,[],none,placed.turn (by simp) (fun _ _ => rfl) (fun _ _ => rfl),by simp⟩
  · obtain ⟨status',es,i,turn,replied⟩ := dispatch_turn placed settled handled
    refine ⟨status',es,i,turn,fun io same => ?_⟩
    obtain ⟨r,replied⟩ := replied io same
    exact ⟨node,r,search,replied⟩
  · have silent : ∀ e ∈ es, Event.io e = none := by
      rcases shape with rfl | rfl <;> simp [Event.io]
    let b1 := registered b nodes (decMsg b msg).saddr socket
    have added : Placed b1 status := addNode_placed placed nodes _ socket
    have start : Turn b b1 status status [] none :=
      added.turn (List.append_nil _).symm (fun _ _ => rfl) fun _ _ => rfl
    obtain ⟨status1,fs,spawned⟩ := traced_turn added silent called
    obtain ⟨status',gs,i,turn,replied⟩ := dispatch_turn spawned.placed (spawned.settled settled (by simp)) handled
    refine ⟨status',fs ++ gs,i,((start.trans spawned).weaken i).trans turn,fun io same => ?_⟩
    -- the node is new: no io is pending on it
    obtain ⟨r,replied⟩ := replied io same
    obtain ⟨li,t,mine⟩ := replied.pending
    cases spawned.others io (by simp) with
    | same kept =>
      obtain ⟨⟨n,cell⟩,_⟩ := placed.held io _ (kept ▸ mine)
      simp at cell
    | born _ _ _ _ posted => simp [posted] at mine

/-- The io whose timer expires in select, and the timer. -/
def Label.expired (s : Loop) : Label → Option (Ptr × Ptr)
  | .select ready tv _ => do
    let next ← banoTimerGetNext s.base.timers
    let (t,_) ← next
    let timers ← banoTimerUpdate s.base.timers t tv
    let ti ← timers.timers.cell t
    if ready && ti.relMs ≠ 0 || s.loopTimer = some t then none
    else do
      let (node,it) ← ti.data
      let it ← it
      let n ← s.base.nodeMem.cell node
      let io ← n.pendingIos.data it
      some (io,t)
  | _ => none

/-- The io that is written and waits for its reply, and the timer that it then has. -/
def Label.armed (s s' : Loop) : Label → Option (Ptr × Ptr)
  | .postIo _ =>
    match s.control with
    | .writing node it => do
      let n ← s.base.nodeMem.cell node
      let io ← n.postedIos.data it
      let r ← s'.base.ioMem.cell io
      let t ← r.timer
      some (io,t)
    | _ => none
  | _ => none

/-- What is noted of a step. -/
def Label.log (s s' : Loop) (label : Label) : List Note :=
  (label.expired s).toList.map (fun e => .expired e.1 e.2) ++ noted (s'.base.trace.drop s.base.trace.length) ++
    (label.armed s s').toList.map fun e => .armed e.1 e.2

/-- What a step does to the status and the record of the io, and to its story. -/
inductive Progress (s : Loop) (label : Label) (io : Ptr) :
    Option Status → Option BanoIo → List Note → Option Status → Option BanoIo → Prop where
  | stays (st : Option Status) (r : Option BanoIo) : Progress s label io st r [] st r
  | born (q : Request) (node li : Ptr) (r : Option BanoIo) :
      Progress s label io none r [.event (.posted node io { q.io with node := some node })]
        (some (.posted node li)) (some { q.io with node := some node })
  | written {n : BanoNode} {r : BanoIo} (node li li' t : Ptr) : s.base.nodeMem.cell node = some n → r.waits = true →
      Progress s label io (some (.posted node li)) (some r)
        [.event (.written node io n.addr (encMsg s.base n r.msg)),.armed io t]
        (some (.pending node li' t)) (some { r with timer := some t })
  | sent {n : BanoNode} {r : BanoIo} (node li : Ptr) : s.base.nodeMem.cell node = some n → r.waits = false →
      Progress s label io (some (.posted node li)) (some r)
        (noted (.written node io n.addr (encMsg s.base n r.msg) :: completion io r writtenIo ++ [.released io]))
        (some .released) none
  | answered {r : BanoIo} {env : FrameEnv} {frame : BanoMsg} (socket node li t : Ptr) :
      label.frame s = some (socket,env,frame) →
      findNodeByAddr s.base (decMsg s.base frame).saddr = some (some node) → (decMsg s.base frame).op = msgOpSet →
      (decMsg s.base frame).has msgFlagReply = true → (decMsg s.base frame).answers r.msg = true →
      Progress s label io (some (.pending node li t)) (some r)
        (noted (.answered io (decMsg s.base frame) ::
          completion io r (answerIo (decMsg s.base frame)) ++ [.released io]))
        (some .released) none
  | reposted {r : BanoIo} (node li t li' : Ptr) : r.retryCount ≠ 0 →
      Progress s label io (some (.pending node li t)) (some r) [.expired io t] (some (.posted node li'))
        (some (expiring r))
  | timedOut {r : BanoIo} (node li t : Ptr) : r.retryCount = 0 →
      Progress s label io (some (.pending node li t)) (some r)
        (.expired io t :: noted (completion io (expiring r) timeoutIo ++ [.released io])) (some .released) none

/-- What is noted of a step whose events are known. -/
theorem Turn.log {s s' : Loop} (turn : Turn s.base s'.base status status' es i) (label : Label) (io : Ptr) :
    story (label.log s s') io = story ((label.expired s).toList.map fun e => .expired e.1 e.2) io ++
      story (noted es) io ++
      story ((label.armed s s').toList.map fun e => .armed e.1 e.2) io := by
  rw [Label.log,turn.trace,List.drop_left,story_append,story_append]

/-- The ios that the step is not about. -/
theorem Turn.progress {s s' : Loop} {label : Label} (turn : Turn s.base s'.base status status' es i)
    (expired : ∀ io t, label.expired s = some (io,t) → i = some io)
    (armed : ∀ io t, label.armed s s' = some (io,t) → i = some io) (io : Ptr) (other : i ≠ some io) :
    Progress s label io (status io) (s.base.ioMem.cell io) (story (label.log s s') io) (status' io)
    (s'.base.ioMem.cell io) := by
  have early : story ((label.expired s).toList.map fun e => .expired e.1 e.2) io = [] := by
    cases lapse : label.expired s with
    | none => rfl
    | some e =>
      have apart : e.1 ≠ io := fun same => other (same ▸ expired e.1 e.2 lapse)
      simp [story,Note.io,apart]
  have late : story ((label.armed s s').toList.map fun e => .armed e.1 e.2) io = [] := by
    cases start : label.armed s s' with
    | none => rfl
    | some e =>
      have apart : e.1 ≠ io := fun same => other (same ▸ armed e.1 e.2 start)
      simp [story,Note.io,apart]
  rw [turn.log,early,late,List.nil_append,List.append_nil]
  cases turn.others io other with
  | same kept cell quiet =>
    rw [kept,cell,quiet]
    exact .stays _ _
  | born q node li unknown posted cell accepted =>
    rw [unknown,posted,cell,accepted]
    exact .born q node li _

/-- A step from a base whose ios have the statuses to one where they have others. -/
structure Advances (s s' : Loop) (label : Label) (status status' : Ptr → Option Status) : Prop where
  placed : Placed s'.base status'
  settled : Settled status'
  trace : s.base.trace <+: s'.base.trace
  progress : ∀ io, Progress s label io (status io) (s.base.ioMem.cell io) (story (label.log s s') io) (status' io)
    (s'.base.ioMem.cell io)

/-- A step that posts at most. -/
theorem Turn.advances {s s' : Loop} (turn : Turn s.base s'.base status status' es none) (settled : Settled status)
    (expired : label.expired s = none) (armed : label.armed s s' = none) : Advances s s' label status status' :=
  ⟨turn.placed,turn.settled settled (by simp),turn.trace ▸ List.prefix_append _ _,
    fun io => turn.progress (by simp [expired]) (by simp [armed]) io (by simp)⟩

theorem Lapsed.untaken (lapsed : Lapsed io node r st r' told) : ∀ t, st ≠ some (.taken t) := by
  cases lapsed <;> simp

theorem Lapsed.progress {s : Loop} {label : Label} (lapsed : Lapsed io node r st r' told) (li t : Ptr) :
    Progress s label io (some (.pending node li t)) (some r) (.expired io t :: told) st r' := by
  cases lapsed with
  | reposted li' more => exact .reposted _ _ _ _ more
  | timedOut last => exact .timedOut _ _ _ last

/-- The io of a timer that is due has expired. -/
theorem expired_due {s : Loop} (untimed : s.loopTimer = none)
    (next : banoTimerGetNext s.base.timers = some (some (t,tv')))
    (updated : banoTimerUpdate s.base.timers t tv = some q) (live : q.timers.cell t = some ti)
    (due : ¬(ready && ti.relMs ≠ 0) = true) (expiry : Expiry env' { s.base with timers := q } t b) :
    Label.expired s (.select ready tv env) = some (expiry.io,t) := by
  have data : ti.data = some (expiry.node,some expiry.it) := by simpa [designated,live] using expiry.data
  have cell : s.base.nodeMem.cell expiry.node = some expiry.n := expiry.cell
  have neither : ¬(ready && ti.relMs ≠ 0 || s.loopTimer = some t) = true := by
    simpa [untimed] using due
  simp only [Label.expired,next,Option.bind_eq_bind,Option.bind_some,updated,live,if_neg neither,data,cell,
    LinkedList.data_eq_some.mpr expiry.listed]

theorem selectTimer_progress {s s' : Loop} (placed : Placed s.base status) (settled : Settled status)
    (untimed : s.loopTimer = none) (mallocs : env.mallocPosted = true)
    (sooner : ∀ t tv', banoTimerGetNext s.base.timers = some (some (t,tv')) → tv.ms ≤ tv'.ms)
    (result : selectTimer ready tv env s = some s') :
    ∃ status', Advances s s' (.select ready tv env) status status' := by
  rcases placed.updated sooner with none | ⟨t,tv',q,ti,next,updated,live,member,kept,placed'⟩
  · obtain rfl : s = s' := by simpa [selectTimer,none] using result
    have turn : Turn s.base s.base status status [] Option.none :=
      placed.turn (by simp) (fun _ _ => rfl) fun _ _ => rfl
    exact ⟨status,turn.advances settled (by simp [Label.expired,none]) rfl⟩
  rw [selectTimer,next] at result
  simp only [Option.bind_eq_bind,Option.bind_some,updated,live] at result
  have start : Turn s.base { s.base with timers := q } status status [] none :=
    placed'.turn (List.append_nil _).symm (fun _ _ => rfl) fun _ _ => rfl
  by_cases waits : (ready && ti.relMs ≠ 0) = true
  · rw [if_pos waits] at result
    obtain rfl := Option.some.inj result
    have turn : Turn s.base ({ s with base := { s.base with timers := q } } : Loop).base status status
      [] Option.none := start
    refine ⟨status,turn.advances settled ?_ rfl⟩
    simp only [Label.expired,next,Option.bind_eq_bind,Option.bind_some,updated,live,waits,Bool.true_or,if_true]
  · have other : s.loopTimer ≠ some t := by simp [untimed]
    rw [if_neg waits,if_pos other] at result
    obtain ⟨b,expired,rfl⟩ := bind_some.mp result
    obtain ⟨expiry⟩ := expirePending_cases expired
    obtain ⟨status',es,mine,turn,lapsed⟩ := expirePending_turn placed' settled member mallocs expiry
    have lapse : Label.expired s (.select ready tv env) = some (expiry.io,t) :=
      expired_due untimed next updated live waits expiry
    have whole : Turn s.base b status status' es (some expiry.io) := (start.weaken _).trans turn
    have settled' : Settled status' := by
      apply whole.settled settled
      intro io same u
      obtain rfl := Option.some.inj same
      exact lapsed.untaken u
    refine ⟨status',whole.placed,settled',whole.trace ▸ List.prefix_append _ _,fun io => ?_⟩
    by_cases here : some expiry.io = some io
    · obtain rfl := Option.some.inj here
      let s' : Loop := { s with base := b }
      have log : story (Label.log s s' (.select ready tv env)) expiry.io = .expired expiry.io t ::
          story (noted es) expiry.io := by
        have first : story [Note.expired expiry.io t] expiry.io = [.expired expiry.io t] := by simp [story,Note.io]
        have armed : Label.armed s s' (.select ready tv env) = none := rfl
        have whole' : Turn s.base s'.base status status' es (some expiry.io) := whole
        rw [whole'.log,armed,lapse]
        simp [first]
      have ioCell : s.base.ioMem.cell expiry.io = some expiry.r := expiry.ioCell
      rw [mine,ioCell,log]
      exact lapsed.progress _ _
    · refine whole.progress (fun io' u same => ?_) (by simp [Label.armed]) io here
      rw [lapse] at same
      obtain ⟨rfl,_⟩ := Prod.mk.inj (Option.some.inj same)
      rfl

theorem Wrote.untaken (wrote : Wrote b node n io r st r' told) : ∀ t, st ≠ some (.taken t) := by
  cases wrote <;> simp

theorem Wrote.progress {s : Loop} {label : Label} (wrote : Wrote s.base node n io r st r' told)
    (cell : s.base.nodeMem.cell node = some n) (li : Ptr) : Progress s label io (some (.posted node li)) (some r)
      (told ++ ((r'.bind BanoIo.timer).toList.map fun t => .armed io t)) st r' := by
  cases wrote with
  | waits li' t waits => exact .written _ _ _ _ cell waits
  | done unacked =>
    show Progress s label io _ _ (_ ++ []) _ _
    rw [List.append_nil]
    exact .sent _ _ cell unacked

theorem postIo_progress {s : Loop} (placed : Placed s.base status) (settled : Settled status)
    (writing : s.control = .writing node li) (result : postIo env s.base node li = some b')
    (mallocs : env.mallocPending = true ∧ env.mallocTimer = true ∧ env.mallocTimerItem = true) (control : Control) :
    ∃ status', Advances s { s with base := b', control := control } (.postIo env) status status' := by
  obtain ⟨n,io,r,status',es,cell,data,ioCell,mine,turn,wrote⟩ := postIo_turn placed result mallocs
  let s' : Loop := { s with base := b', control := control }
  have turn' : Turn s.base s'.base status status' es (some io) := turn
  have armed : Label.armed s s' (.postIo env) = (b'.ioMem.cell io).bind fun r => r.timer.map fun t => (io,t) := by
    simp only [Label.armed,writing,Option.bind_eq_bind,cell,data,Option.bind_some]
    cases b'.ioMem.cell io with
    | none => rfl
    | some r' => exact Option.map_eq_bind.symm
  have settled' : Settled status' := by
    apply turn.settled settled
    intro i same t
    obtain rfl := Option.some.inj same
    exact wrote.untaken t
  refine ⟨status',turn.placed,settled',turn.trace ▸ List.prefix_append _ _,fun i => ?_⟩
  by_cases here : some io = some i
  · obtain rfl := Option.some.inj here
    have log : story (Label.log s s' (.postIo env)) io =
        story (noted es) io ++ (((b'.ioMem.cell io).bind BanoIo.timer).toList.map fun t => .armed io t) := by
      rw [turn'.log,armed]
      cases record : b'.ioMem.cell io with
      | none => simp [Label.expired]
      | some r' => cases timer : r'.timer <;> simp [Label.expired,timer,story,Note.io]
    rw [mine,ioCell,log]
    exact wrote.progress cell li
  · refine turn'.progress (by simp [Label.expired]) (fun io' t same => ?_) i here
    rw [armed] at same
    obtain ⟨r',_,same⟩ := Option.bind_eq_some_iff.mp same
    obtain ⟨u,_,same⟩ := Option.map_eq_some_iff.mp same
    obtain ⟨rfl,_⟩ := Prod.mk.inj same
    rfl

/-- Reading a frame arms no timer and lets none expire. -/
theorem frame_untimed {s : Loop} {label : Label} (s' : Loop) (frame : label.frame s = some heard) :
    label.expired s = none ∧ label.armed s s' = none := by
  constructor
  · cases label with
    | select ready tv env => exact nomatch frame
    | _ => rfl
  · cases label with
    | postIo env => exact nomatch frame
    | _ => rfl

/-- A step that reads a frame. -/
theorem frame_progress {s s' : Loop} (placed : Placed s.base status) (settled : Settled status)
    (frame : label.frame s = some (socket,env,msg))
    (result : handleBanoMsg linfo env s.base socket msg = some (err,s'.base)) :
    ∃ status', Advances s s' label status status' := by
  obtain ⟨status',es,i,turn,replied⟩ := handleBanoMsg_turn placed settled result
  obtain ⟨expired,armed⟩ := frame_untimed s' frame
  have settled' : Settled status' := by
    apply turn.settled settled
    intro io same t
    obtain ⟨_,_,_,reply⟩ := replied io same
    simp [reply.released]
  refine ⟨status',turn.placed,settled',turn.trace ▸ List.prefix_append _ _,fun io => ?_⟩
  by_cases here : i = some io
  · obtain ⟨node,r,search,reply⟩ := replied io here
    obtain ⟨li,t,mine⟩ := reply.pending
    rw [turn.log,expired,armed,mine,reply.cell,reply.told,reply.released,reply.gone]
    simp only [Option.toList_none,List.map_nil,story_nil,List.nil_append,List.append_nil]
    exact .answered socket node li t frame search reply.set reply.reply reply.answers
  · exact turn.progress (by simp [expired]) (by simp [armed]) io here

theorem same_turn {b b' : Base} (placed : Placed b status) (same : b' = b) : Turn b b' status status [] none := by
  subst same
  exact placed.turn (List.append_nil _).symm (fun _ _ => rfl) fun _ _ => rfl

theorem step_progress {s s' : Loop} (alive : Alive s.base status) (untimed : s.loopTimer = none)
    (noTimer : linfo.timerFn = false)
    (allowed : label.Allowed s) (taken : Loop.step linfo label s = some s') :
    ∃ status', Advances s s' label status status' := by
  have placed := alive.placed
  have settled := alive.settled
  cases frame : label.frame s with
  | some heard =>
    obtain ⟨err,handled⟩ := step_frame frame taken
    exact frame_progress placed settled frame handled
  | none =>
  cases label with
  | newNode li posts =>
    have idle := allowed.1
    simp only [Loop.step,idle,Loop.idleStep] at taken
    obtain ⟨b,called,rfl⟩ := bind_some.mp taken
    obtain ⟨node,_,called⟩ := Option.bind_eq_some_iff.mp called
    split at called
    · obtain ⟨status',es,turn⟩ := traced_turn placed (by simp [Event.io]) called
      exact ⟨status',Turn.advances turn settled rfl rfl⟩
    · exact ⟨status,Turn.advances (same_turn placed (Option.some.inj called).symm) settled rfl rfl⟩
  | post p =>
    have idle := allowed.1
    simp only [Loop.step,idle,Loop.idleStep] at taken
    obtain ⟨b,posted,rfl⟩ := bind_some.mp taken
    obtain ⟨status',es,turn⟩ := postNew_turn placed posted
    exact ⟨status',Turn.advances turn settled rfl rfl⟩
  | addTimer mallocTimer mallocItem =>
    have idle : s.control = .idle := allowed
    obtain rfl : s = s' := by simpa [Loop.step,Loop.idleStep,idle,noTimer] using taken
    exact ⟨status,Turn.advances (same_turn placed rfl) settled rfl rfl⟩
  | peek li env msg =>
    have idle := allowed.1
    simp only [Loop.step,idle,Loop.idleStep] at taken
    obtain ⟨b,handled,rfl⟩ := bind_some.mp taken
    exact ⟨status,Turn.advances (same_turn placed (readMsg_same frame handled)) settled rfl rfl⟩
  | read li env outcome =>
    have idle := allowed.1
    simp only [Loop.step,idle,Loop.idleStep] at taken
    obtain ⟨b,handled,rfl⟩ := bind_some.mp taken
    cases outcome with
    | again =>
      obtain ⟨_,_,handled⟩ := Option.bind_eq_some_iff.mp handled
      obtain ⟨_,_,handled⟩ := Option.bind_eq_some_iff.mp handled
      exact ⟨status,Turn.advances (same_turn placed (Option.some.inj handled).symm) settled rfl rfl⟩
    | error => exact allowed.2.2.elim
    | msg msg =>
      exact ⟨status,Turn.advances (same_turn placed (readMsg_same frame handled)) settled rfl rfl⟩
  | write li =>
    have idle := allowed.1
    simp only [Loop.step,idle,Loop.idleStep] at taken
    obtain ⟨node,_,taken⟩ := Option.bind_eq_some_iff.mp taken
    obtain ⟨n,_,rfl⟩ := bind_some.mp taken
    exact ⟨status,Turn.advances (same_turn placed rfl) settled rfl rfl⟩
  | postIo env =>
    obtain ⟨⟨node,it,writing⟩,_,mallocs,_⟩ := allowed
    simp only [Loop.step,writing] at taken
    obtain ⟨n,_,taken⟩ := Option.bind_eq_some_iff.mp taken
    obtain ⟨next,_,taken⟩ := Option.bind_eq_some_iff.mp taken
    obtain ⟨b,written,rfl⟩ := bind_some.mp taken
    exact postIo_progress placed settled writing written mallocs _
  | select ready tv env =>
    obtain ⟨idle,mallocs,_,sooner⟩ := allowed
    simp only [Loop.step,idle,Loop.idleStep] at taken
    exact selectTimer_progress placed settled untimed mallocs sooner taken
  | selectFails =>
    have idle : s.control = .idle := allowed
    obtain rfl : { s with control := .stopped } = s' := by simpa [Loop.step,Loop.idleStep,idle] using taken
    exact ⟨status,Turn.advances (same_turn placed rfl) settled rfl rfl⟩
  | close => exact allowed.elim

end Bano
