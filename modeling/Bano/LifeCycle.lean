import Bano.Carried
import Bano.Completion
import Mathlib.Logic.ExistsUnique

/-! The life of an io in a loop without loop timer: it is posted, or pending under its timer, or
released after its completion function was called. -/
namespace Bano

open Lib

/-- How many items of the list carry the io. -/
def LinkedList.occurrences (l : LinkedList Ptr) (io : Ptr) : Nat := l.entries.countP fun e => e.2 = io

theorem LinkedList.occurrences_one {l : LinkedList Ptr} (listed : (li,io) ∈ l.entries)
    (only : ∀ p, (p,io) ∈ l.entries → p = li) : l.occurrences io = 1 := by
  have same : l.occurrences io = l.entries.count (li,io) := by
    apply List.countP_congr
    intro e member
    obtain ⟨p,i⟩ := e
    simp only [decide_eq_true_eq,beq_iff_eq,Prod.mk.injEq]
    exact ⟨fun here => ⟨only p (here ▸ member),here⟩,And.right⟩
  rw [same]
  exact List.count_eq_one_of_mem (List.Nodup.of_map _ l.nodup) listed

theorem LinkedList.occurrences_zero {l : LinkedList Ptr} (absent : ∀ p, (p,io) ∉ l.entries) :
    l.occurrences io = 0 := by
  apply List.countP_eq_zero.mpr
  intro e member here
  simp only [decide_eq_true_eq] at here
  exact absent e.1 (here ▸ member)

/-- The timer's data are the pending ios of the node and the item that carries the io. -/
def Designates (b : Base) (t node io : Ptr) : Prop :=
  ∃ n it, b.nodeMem.cell node = some n ∧ designated b.timers t = some (node,some it) ∧ (it,io) ∈ n.pendingIos.entries

structure IsPosted (b : Base) (node io : Ptr) : Prop where
  attached : ∃ n, b.nodeMem.cell node = some n
  live : ∃ r, b.ioMem.cell io = some r
  posted : ∀ p n, b.nodeMem.cell p = some n → n.postedIos.occurrences io = if p = node then 1 else 0
  pending : ∀ p n, b.nodeMem.cell p = some n → n.pendingIos.occurrences io = 0
  untimed : ∀ t ∈ timersOf b.timers, ∀ p, ¬Designates b t p io

structure IsPending (b : Base) (node io : Ptr) : Prop where
  attached : ∃ n, b.nodeMem.cell node = some n
  reply : ∃ r, b.ioMem.cell io = some r ∧ r.waits = true
  posted : ∀ p n, b.nodeMem.cell p = some n → n.postedIos.occurrences io = 0
  pending : ∀ p n, b.nodeMem.cell p = some n → n.pendingIos.occurrences io = if p = node then 1 else 0
  timed : ∃! t, t ∈ timersOf b.timers ∧ ∃ p, Designates b t p io
  own : ∀ t ∈ timersOf b.timers, ∀ p, Designates b t p io → p = node

structure IsReleased (b : Base) (io : Ptr) (r : BanoIo) : Prop where
  gone : b.ioMem.cell io = none
  called : completions b.trace io = if r.complFn.isSome then 1 else 0
  posted : ∀ p n, b.nodeMem.cell p = some n → n.postedIos.occurrences io = 0
  pending : ∀ p n, b.nodeMem.cell p = some n → n.pendingIos.occurrences io = 0
  untimed : ∀ t ∈ timersOf b.timers, ∀ p, ¬Designates b t p io

inductive Situation where
  | posted
  | pending
  | released

/-- The situation of the io `r` that was posted to the node. -/
def InSituation (b : Base) (node io : Ptr) (r : BanoIo) : Situation → Prop
  | .posted => IsPosted b node io
  | .pending => IsPending b node io
  | .released => IsReleased b io r

theorem InSituation.unique (one : InSituation b node io r k) (other : InSituation b node io r k') : k = k' := by
  have posted_pending : IsPosted b node io → ¬IsPending b node io := by
    intro posted pending
    obtain ⟨n,cell⟩ := posted.attached
    simpa [pending.posted node n cell] using posted.posted node n cell
  have live : IsReleased b io r → ∀ r', b.ioMem.cell io ≠ some r' := by
    intro released r'
    simp [released.gone]
  cases k with
  | posted =>
    cases k' with
    | posted => rfl
    | pending => exact (posted_pending one other).elim
    | released =>
      obtain ⟨r',cell⟩ := one.live
      exact (live other r' cell).elim
  | pending =>
    cases k' with
    | posted => exact (posted_pending other one).elim
    | pending => rfl
    | released =>
      obtain ⟨r',cell,_⟩ := one.reply
      exact (live other r' cell).elim
  | released =>
    cases k' with
    | posted =>
      obtain ⟨r',cell⟩ := other.live
      exact (live one r' cell).elim
    | pending =>
      obtain ⟨r',cell,_⟩ := other.reply
      exact (live one r' cell).elim
    | released => rfl

theorem Designates.pending {b : Base} (placed : Placed b status) (designates : Designates b t p io) :
    ∃ it t', status io = some (.pending p it t') := by
  obtain ⟨n,it,cell,_,listed⟩ := designates
  obtain ⟨t',mine⟩ := (placed.pending p n cell it io).mp listed
  exact ⟨it,t',mine⟩

/-- A timer of the queue designates the pending io that it belongs to, and no other. -/
theorem Placed.designates {b : Base} (placed : Placed b status) (settled : Settled status)
    (member : t ∈ timersOf b.timers) :
    ∃ node li io, status io = some (.pending node li t) ∧ Designates b t node io ∧
      ∀ p io', Designates b t p io' → p = node ∧ io' = io := by
  obtain ⟨io,s,mine,timer⟩ := (placed.timers t).mp member
  cases s with
  | posted | released => simp [Status.timer] at timer
  | taken t' => exact (settled io t' mine).elim
  | pending node li t' =>
    obtain rfl : t = t' := (Option.some.inj timer).symm
    obtain ⟨⟨n,cell⟩,data,_⟩ := placed.held io _ mine
    refine ⟨node,li,io,mine,⟨n,li,cell,data,(placed.pending_only cell mine).1⟩,?_⟩
    rintro p io' ⟨n',it,cell',data',listed⟩
    rw [data] at data'
    obtain ⟨rfl,rfl⟩ : node = p ∧ li = it := by simpa using data'
    obtain rfl := Option.some.inj (cell.symm.trans cell')
    obtain ⟨t',mine'⟩ := (placed.pending node n cell li io').mp listed
    have once := (placed.pending_only cell mine).1
    exact ⟨rfl,congrArg Prod.snd (List.inj_on_of_nodup_map n.pendingIos.nodup listed once rfl)⟩

theorem Placed.inSituation {b : Base} (placed : Placed b status) (settled : Settled status)
    (ledger : Ledger b.ioMem b.trace none) (accepted : .posted node io r ∈ b.trace) : ∃ k,
      InSituation b node io r k := by
  have notPosted : (∀ p li, status io ≠ some (.posted p li)) → ∀ p n, b.nodeMem.cell p = some n →
      n.postedIos.occurrences io = 0 := fun other p n cell =>
    LinkedList.occurrences_zero fun li member => other p li ((placed.posted p n cell li io).mp member)
  have notPending : (∀ p li t, status io ≠ some (.pending p li t)) → (∀ p n, b.nodeMem.cell p = some n →
      n.pendingIos.occurrences io = 0) ∧ ∀ t ∈ timersOf b.timers, ∀ p, ¬Designates b t p io := by
    refine fun other => ⟨fun p n cell => LinkedList.occurrences_zero fun li member => ?_,fun t _ p designates => ?_⟩
    · obtain ⟨t,mine⟩ := (placed.pending p n cell li io).mp member
      exact other p li t mine
    · obtain ⟨it,t',mine⟩ := designates.pending placed
      exact other p it t' mine
  obtain ⟨s,mine⟩ := (placed.accepted io).mpr ⟨node,r,accepted⟩
  have own : ∀ p r', b.ioMem.cell io = some r' → r'.node = some p → p = node := by
    intro p r' cell here
    have there := (ledger.live node io r accepted r' cell).2.2.2
    exact Option.some.inj (here.symm.trans there)
  cases s with
  | taken t => exact (settled io t mine).elim
  | posted p li =>
    obtain ⟨⟨n,cell⟩,r',ioCell,here,_⟩ := placed.held io _ mine
    obtain rfl := own p r' ioCell here
    obtain ⟨pending,untimed⟩ := notPending (by simp [mine])
    refine ⟨.posted,⟨n,cell⟩,⟨r',ioCell⟩,fun q m cell' => ?_,pending,untimed⟩
    split
    · next same =>
      subst same
      obtain ⟨listed,only,_⟩ := placed.posted_only cell' mine
      exact LinkedList.occurrences_one listed only
    · next apart =>
      apply LinkedList.occurrences_zero
      intro it member
      have other := (placed.posted q m cell' it io).mp member
      rw [mine] at other
      obtain ⟨⟩ := other
      exact apart rfl
  | pending p li t =>
    obtain ⟨⟨n,cell⟩,data,r',ioCell,here,waits,_⟩ := placed.held io _ mine
    obtain rfl := own p r' ioCell here
    have posted := notPosted (by simp [mine])
    have alone : ∀ u ∈ timersOf b.timers, ∀ q, Designates b u q io → u = t ∧ q = p := by
      intro u member q designates
      obtain ⟨p',li',io',mine',_,only⟩ := placed.designates settled member
      obtain ⟨rfl,rfl⟩ := only q io designates
      rw [mine] at mine'
      obtain ⟨⟩ := mine'
      exact ⟨rfl,rfl⟩
    refine ⟨.pending,⟨n,cell⟩,⟨r',ioCell,waits⟩,posted,fun q m cell' => ?_,?_,fun u member q designates =>
      (alone u member q designates).2⟩
    · split
      · next same =>
        subst same
        obtain ⟨listed,only,_⟩ := placed.pending_only cell' mine
        exact LinkedList.occurrences_one listed only
      · next apart =>
        apply LinkedList.occurrences_zero
        intro it member
        obtain ⟨u,other⟩ := (placed.pending q m cell' it io).mp member
        rw [mine] at other
        obtain ⟨⟩ := other
        exact apart rfl
    · have timed := placed.timed mine rfl
      refine ⟨t,⟨timed,p,n,li,cell,data,(placed.pending_only cell mine).1⟩,?_⟩
      rintro u ⟨member,q,designates⟩
      exact (alone u member q designates).1
  | released =>
    obtain ⟨pending,untimed⟩ := notPending (by simp [mine])
    have gone := placed.held io _ mine
    exact ⟨.released,gone,ledger.gone node io r accepted gone,notPosted (by simp [mine]),pending,untimed⟩

/-- Steps in which allocations and writes succeed, no socket is lost, callbacks only post to nodes that
exist and select leaves no more time than it was given. -/
def Label.Allowed : Label → Loop → Prop
  | .newNode li posts, s => s.control = .idle ∧ (∃ node, (li,node) ∈ s.base.nodes.entries) ∧ PostsTo s.base posts
  | .post p, s => s.control = .idle ∧ PostsTo s.base [p]
  | .addTimer .., s => s.control = .idle
  | .peek li env msg, s => s.control = .idle ∧ (∃ socket, (li,socket) ∈ s.base.sockets.entries) ∧
      FrameReady env s.base msg
  | .read li env result, s => s.control = .idle ∧ (∃ socket, (li,socket) ∈ s.base.sockets.entries) ∧
      match result with
      | .again => True
      | .error => False
      | .msg msg => FrameReady env s.base msg
  | .write li, s => s.control = .idle ∧ ∃ node, (li,node) ∈ s.base.nodes.entries
  | .postIo env, s => (∃ node it, s.control = .writing node it) ∧ env.writeFails = false ∧
      (env.mallocPending = true ∧ env.mallocTimer = true ∧ env.mallocTimerItem = true) ∧ PostsTo s.base env.posts
  | .select _ tv env, s => s.control = .idle ∧ env.mallocPosted = true ∧ PostsTo s.base env.posts ∧
      ∀ t tv', banoTimerGetNext s.base.timers = some (some (t,tv')) → tv.ms ≤ tv'.ms
  | .selectFails, s => s.control = .idle
  | .close, _ => False

/-- What holds between the steps. -/
structure Steady (s : Loop) : Prop where
  alive : ∃ status, Alive s.base status
  untimed : s.loopTimer = none
  cursor : ∀ node it, s.control = .writing node it →
    ∃ n io, s.base.nodeMem.cell node = some n ∧ (it,io) ∈ n.postedIos.entries

theorem Idle.alive {b : Base} (idle : Idle b) : Alive b fun _ => none := by
  have noTimers : timersOf b.timers = [] := by rw [idle.timers]; rfl
  refine ⟨⟨?_,?_,by simp,by simp,?_,by simp [noTimers],by simp,by simp [idle.trace]⟩,by simp [Settled],
    idle.node,idle.socket⟩
  · intro node n cell li io
    simp [(idle.unused node n cell).1]
  · intro node n cell li io
    simp [(idle.unused node n cell).2]
  · rw [idle.timers]
    exact banoTimerInit_tailed

theorem Idle.steady (idle : Idle b) : Steady ⟨b,none,.idle⟩ := ⟨⟨_,idle.alive⟩,rfl,by simp⟩

/-- A step that leaves the loop idle. -/
theorem Steady.idle {s : Loop} (steady : Steady s) (idle : s.control = .idle) (alive : Alive b status) :
    Steady { s with base := b } := ⟨⟨status,alive⟩,steady.untimed,by simp [idle]⟩

theorem doNewNode_alive {b : Base} (alive : Alive b status) (listed : (li,node) ∈ b.nodes.entries)
    (targets : PostsTo b posts)
    (linfo : LoopInfo) : ∃ b' status', doNewNode linfo posts b li = some b' ∧ Alive b' status' := by
  have found := LinkedList.data_eq_some.mpr listed
  by_cases fn : linfo.nodeFn = true
  · have targets' : PostsTo (b.emit (.newNode node)) posts := targets
    have quiet : ∀ e ∈ [Event.newNode node], ∀ p i r, e ≠ .posted p i r := by simp
    obtain ⟨b',called⟩ := runPosts_some targets'
    obtain ⟨status',carried⟩ := traced_carried alive.placed alive.settled quiet called
    exact ⟨b',status',by simp [doNewNode,found,fn,called],carried.alive alive⟩
  · exact ⟨b,status,by simp [doNewNode,found,fn],alive⟩

theorem readMsg_alive {b : Base} (alive : Alive b status) (listed : (li,socket) ∈ b.sockets.entries)
    (ready : FrameReady env b msg) (linfo : LoopInfo) :
    ∃ b' status', readMsg linfo env b li (.msg msg) = some b' ∧ Alive b' status' := by
  have found := LinkedList.data_eq_some.mpr listed
  obtain ⟨s,live⟩ := alive.socket _ listed
  obtain ⟨err,b',status',handled,alive'⟩ := handleBanoMsg_alive alive ready linfo socket
  by_cases snrf : s.type = .snrf
  · exact ⟨b',status',by simp [readMsg,found,live,snrf,handled],alive'⟩
  · exact ⟨b,status,by simp [readMsg,found,live,snrf],alive⟩

/-- The head of the queue, with the time that remains of it. -/
theorem Placed.updated {b : Base} (placed : Placed b status)
    (sooner : ∀ t tv', banoTimerGetNext b.timers = some (some (t,tv')) → tv.ms ≤ tv'.ms) :
    banoTimerGetNext b.timers = some none ∨ ∃ t tv' q ti, banoTimerGetNext b.timers = some (some (t,tv')) ∧
      banoTimerUpdate b.timers t tv = some q ∧ q.timers.cell t = some ti ∧ t ∈ timersOf q ∧
      (∀ u, designated q u = designated b.timers u) ∧ Placed { b with timers := q } status := by
  rcases banoTimerGetNext_head placed.tailed with ⟨_,none⟩ | ⟨e,rest,ti,tv',entries,live,ms,next⟩
  · exact .inl none
  obtain ⟨q,updated,tailed',same,kept⟩ := placed.tailed.update entries live tv (ms ▸ sooner e.2 tv' next)
  have timers : timersOf q = timersOf b.timers := by rw [timersOf,same,timersOf]
  have placed' : Placed { b with timers := q } status :=
    placed.frame (fun p n cell => .inl ⟨n,cell,rfl,rfl⟩) (fun p n cell => ⟨n,cell⟩)
      (fun _ r cell => ⟨r,cell,rfl,rfl,rfl,rfl⟩) (fun _ _ gone => gone) (Nat.le_refl _) tailed'
      (fun t => by rw [timers]) kept (fun _ => Iff.rfl)
  have member : e.2 ∈ timersOf q := by
    rw [timersOf,same,entries]
    exact List.mem_cons_self
  obtain ⟨ti',live',_⟩ := tailed'.live member
  exact .inr ⟨e.2,tv',q,ti',next,updated,live',member,kept,placed'⟩

theorem selectTimer_alive {s : Loop} (alive : Alive s.base status) (untimed : s.loopTimer = none)
    (mallocs : env.mallocPosted = true) (targets : PostsTo s.base env.posts)
    (sooner : ∀ t tv', banoTimerGetNext s.base.timers = some (some (t,tv')) → tv.ms ≤ tv'.ms) (ready : Bool) :
    ∃ b' status', selectTimer ready tv env s = some { s with base := b' } ∧ Alive b' status' := by
  rcases alive.placed.updated sooner with none | ⟨t,tv',q,ti,next,updated,live,member,_,placed⟩
  · exact ⟨s.base,status,by simp [selectTimer,none],alive⟩
  have alive' : Alive { s.base with timers := q } status := ⟨placed,alive.settled,alive.node,alive.socket⟩
  by_cases waits : (ready && ti.relMs ≠ 0) = true
  · refine ⟨_,status,?_,alive'⟩
    rw [selectTimer,next]
    simp only [Option.bind_eq_bind,Option.bind_some,updated,live,if_pos waits]
  · obtain ⟨b',status',expired,carried⟩ := expirePending_carried placed alive.settled member mallocs targets
    refine ⟨b',status',?_,carried.alive alive'⟩
    rw [selectTimer,next]
    simp only [Option.bind_eq_bind,Option.bind_some,updated,live,if_neg waits,untimed]
    simp [expired]

/-- The item that write_msg saved is still there when its io's predecessor was written. -/
theorem postIo_steady {s : Loop} (steady : Steady s) (writing : s.control = .writing node it)
    (writes : env.writeFails = false)
    (mallocs : env.mallocPending = true ∧ env.mallocTimer = true ∧ env.mallocTimerItem = true)
    (targets : PostsTo s.base env.posts) :
    ∃ s', Loop.step linfo (.postIo env) s = some s' ∧ Steady s' := by
  obtain ⟨status,alive⟩ := steady.alive
  obtain ⟨n,io,cell,listed⟩ := steady.cursor node it writing
  obtain ⟨b',status',written,carried,kept⟩ :=
    postIo_carried alive.placed alive.settled cell listed writes mallocs targets
  obtain ⟨before,rest,split⟩ := List.append_of_mem listed
  have next := LinkedList.next_eq split
  refine ⟨{ s with base := b', control := Bano.cursor node (first rest none) },
    by simp [Loop.step,writing,cell,next,written],
    ⟨status',carried.alive alive⟩,steady.untimed,?_⟩
  intro p li here
  cases rest with
  | nil => simp [Bano.cursor] at here
  | cons e rest =>
    obtain ⟨rfl,rfl⟩ : node = p ∧ e.1 = li := by simpa [Bano.cursor] using here
    have later : e ∈ n.postedIos.entries := by rw [split]; simp
    have mine := (alive.placed.posted node n cell e.1 e.2).mp later
    have other : e.2 ≠ io := by
      intro same
      have once := (alive.placed.posted_only cell (same ▸ mine)).2.1 it listed
      have nodup := n.postedIos.nodup
      rw [split,List.map_append,List.nodup_append] at nodup
      exact (List.nodup_cons.mp nodup.2.1).1 (by simp [once])
    obtain ⟨n',cell'⟩ := carried.live node n cell
    exact ⟨n',e.2,cell',(carried.placed.posted node n' cell' e.1 e.2).mpr (kept e.2 _ other mine)⟩

/-- Every allowed step has a result. -/
theorem Steady.step {s : Loop} (steady : Steady s) (noTimer : linfo.timerFn = false) (allowed : label.Allowed s) :
    ∃ s', Loop.step linfo label s = some s' ∧ Steady s' := by
  obtain ⟨status,alive⟩ := steady.alive
  cases label with
  | newNode li posts =>
    obtain ⟨idle,⟨node,listed⟩,targets⟩ := allowed
    obtain ⟨b',status',called,alive'⟩ := doNewNode_alive alive listed targets linfo
    exact ⟨_,by simp [Loop.step,Loop.idleStep,idle,called],steady.idle idle alive'⟩
  | post p =>
    obtain ⟨idle,targets⟩ := allowed
    obtain ⟨b',status',posted,carried⟩ := runPosts_carried alive.placed alive.settled targets
    have posted' : postNew s.base p = some b' := by simpa [runPosts] using posted
    exact ⟨_,by simp [Loop.step,Loop.idleStep,idle,posted'],steady.idle idle (carried.alive alive)⟩
  | addTimer mallocTimer mallocItem =>
    have idle : s.control = .idle := allowed
    exact ⟨s,by simp [Loop.step,Loop.idleStep,idle,noTimer],steady⟩
  | peek li env msg =>
    obtain ⟨idle,⟨socket,listed⟩,ready⟩ := allowed
    obtain ⟨b',status',handled,alive'⟩ := readMsg_alive alive listed ready linfo
    exact ⟨_,by simp [Loop.step,Loop.idleStep,idle,peekMsg,handled],steady.idle idle alive'⟩
  | read li env outcome =>
    obtain ⟨idle,⟨socket,listed⟩,ready⟩ := allowed
    cases outcome with
    | again =>
      obtain ⟨k,live⟩ := alive.socket _ listed
      have found := LinkedList.data_eq_some.mpr listed
      exact ⟨_,by simp [Loop.step,Loop.idleStep,idle,readMsg,found,live],steady.idle idle alive⟩
    | error => exact ready.elim
    | msg msg =>
      obtain ⟨b',status',handled,alive'⟩ := readMsg_alive alive listed ready linfo
      exact ⟨_,by simp [Loop.step,Loop.idleStep,idle,handled],steady.idle idle alive'⟩
  | write li =>
    obtain ⟨idle,node,listed⟩ := allowed
    obtain ⟨n,cell⟩ := alive.node _ listed
    have found := LinkedList.data_eq_some.mpr listed
    refine ⟨{ s with control := Bano.cursor node (first n.postedIos.entries none) },
      by simp [Loop.step,Loop.idleStep,idle,found,cell,LinkedList.head_eq],⟨status,alive⟩,steady.untimed,?_⟩
    intro p it here
    cases entries : n.postedIos.entries with
    | nil => simp [entries,Bano.cursor] at here
    | cons e rest =>
      obtain ⟨rfl,rfl⟩ : node = p ∧ e.1 = it := by simpa [entries,Bano.cursor] using here
      exact ⟨n,e.2,cell,by simp [entries]⟩
  | postIo env =>
    obtain ⟨⟨node,it,writing⟩,writes,mallocs,targets⟩ := allowed
    exact postIo_steady steady writing writes mallocs targets
  | select ready tv env =>
    obtain ⟨idle,mallocs,targets,sooner⟩ := allowed
    obtain ⟨b',status',selected,alive'⟩ := selectTimer_alive alive steady.untimed mallocs targets sooner ready
    exact ⟨{ s with base := b' },by simpa only [Loop.step,idle,Loop.idleStep] using selected,steady.idle idle alive'⟩
  | selectFails =>
    have idle : s.control = .idle := allowed
    exact ⟨{ s with control := .stopped },by simp [Loop.step,Loop.idleStep,idle],⟨status,alive⟩,
      steady.untimed,by simp⟩
  | close => exact allowed.elim

theorem Label.Allowed.unawaited {label : Label} (allowed : label.Allowed s) : label.Unawaited s := by
  cases label with
  | read li env outcome =>
    cases outcome with
    | error => exact allowed.2.2.elim
    | again | msg _ => exact trivial
  | close => exact allowed.elim
  | _ => exact trivial

theorem reach_steady (idle : Idle b) (noTimer : linfo.timerFn = false)
    (reach : Reach (Loop.step linfo) Label.Allowed ⟨b,none,.idle⟩ labels s) : Steady s := by
  apply reach.invariant Steady idle.steady
  intro label u v steady allowed taken
  obtain ⟨v',taken',steady'⟩ := steady.step noTimer allowed
  obtain rfl := Option.some.inj (taken.symm.trans taken')
  exact steady'

theorem lifeCycle (idle : Idle b) (noTimer : linfo.timerFn = false)
    (reach : Reach (Loop.step linfo) Label.Allowed ⟨b,none,.idle⟩ labels s) :
    (∀ node io r, .posted node io r ∈ s.base.trace → ∃! k, InSituation s.base node io r k) ∧
    (timersOf s.base.timers).Nodup ∧ (∀ t ∈ timersOf s.base.timers, ∃ node io, Designates s.base t node io) ∧
    ∀ label, label.Allowed s → ∃ s', Loop.step linfo label s = some s' := by
  have steady := reach_steady idle noTimer reach
  obtain ⟨status,alive⟩ := steady.alive
  have ledger := reach_ledger idle (reach.mono fun _ _ => Label.Allowed.unawaited)
  refine ⟨fun node io r accepted => ?_,alive.placed.tailed.nodup,fun t member => ?_,fun label allowed => ?_⟩
  · obtain ⟨k,here⟩ := alive.placed.inSituation alive.settled ledger accepted
    exact ⟨k,here,fun _ other => other.unique here⟩
  · obtain ⟨node,_,io,_,designates,_⟩ := alive.placed.designates alive.settled member
    exact ⟨node,io,designates⟩
  · obtain ⟨s',taken,_⟩ := steady.step noTimer allowed
    exact ⟨s',taken⟩

/-- A GET that waits for its reply. -/
def getPost : Post := ⟨.get junkIo 1 (some 0),0,true⟩

def retryEnv : TimeoutEnv := ⟨true,[]⟩

/-- A GET is written, its timer expires, and it is posted again. -/
theorem lifeCycle_get : ∃ s, run (Loop.step bareLoop)
    [.post getPost,.write 0,.postIo bareWrite,.select false ⟨0,0⟩ retryEnv]
    ⟨twoSockets,none,.idle⟩ = some s ∧ .posted 0 0 { getPost.request.io with node := some 0 } ∈ s.base.trace ∧
    ∃! k, InSituation s.base 0 0 { getPost.request.io with node := some 0 } k := by
  obtain ⟨s1,ran1,view1⟩ : ∃ s1, run (Loop.step bareLoop) [.post getPost] ⟨twoSockets,none,.idle⟩ = some s1 ∧
      (s1.control,s1.base.nodes.entries) = (.idle,[(0,0)]) := Option.map_eq_some_iff.mp rfl
  obtain ⟨s2,ran2,view2⟩ : ∃ s2, run (Loop.step bareLoop) [.post getPost,.write 0]
    ⟨twoSockets,none,.idle⟩ = some s2 ∧
      s2.control = .writing 0 0 := Option.map_eq_some_iff.mp rfl
  obtain ⟨s3,ran3,view3⟩ : ∃ s3, run (Loop.step bareLoop) [.post getPost,.write 0,.postIo bareWrite]
      ⟨twoSockets,none,.idle⟩ = some s3 ∧ s3.control = .idle := Option.map_eq_some_iff.mp rfl
  obtain ⟨s,ran,accepted⟩ : ∃ s, run (Loop.step bareLoop) [.post getPost,.write 0,.postIo bareWrite,
      .select false ⟨0,0⟩ retryEnv] ⟨twoSockets,none,.idle⟩ = some s ∧ s.base.trace =
        [.posted 0 0 { getPost.request.io with node := some 0 },.written 0 0 0xa5a5a5a5 ⟨msgOpGet,0,0,0,0,1,0⟩] :=
    Option.map_eq_some_iff.mp rfl
  obtain ⟨idle1,nodes1⟩ := Prod.mk.inj view1
  have reach1 : Reach (Loop.step bareLoop) Label.Allowed ⟨twoSockets,none,.idle⟩ [.post getPost] s1 :=
    .extend .start ⟨rfl,fun p member => List.mem_singleton.mp member ▸ ⟨_,rfl⟩⟩ ran1
  have write : Label.Allowed (.write 0) s1 := ⟨idle1,0,by simp [nodes1]⟩
  have written : Label.Allowed (.postIo bareWrite) s2 :=
    ⟨⟨0,0,view2⟩,rfl,⟨rfl,rfl,rfl⟩,by simp [PostsTo,bareWrite]⟩
  have expired : Label.Allowed (.select false ⟨0,0⟩ retryEnv) s3 :=
    ⟨view3,rfl,by simp [PostsTo,retryEnv],fun _ _ _ => Nat.zero_le _⟩
  have reach := ((reach1.extend write ran2).extend written ran3).extend expired ran
  have posted : .posted 0 0 { getPost.request.io with node := some 0 } ∈ s.base.trace := by
    rw [accepted]
    exact List.mem_cons_self
  exact ⟨s,ran,posted,(lifeCycle twoSockets_idle rfl reach).1 0 0 _ posted⟩

end Bano
