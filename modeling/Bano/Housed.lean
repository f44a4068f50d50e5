import Bano.Answers
import Bano.Carried
import Bano.Deadlines
import Bano.Handles
import Bano.LifeCycle
import Bano.Notices
import Bano.Origins
import Bano.Sockets

/-! Where the nodes of a running base are: each node in memory is listed once, and its
socket is listed too. With what holds of the ios, such a base is consistent, so that it
can be closed at any time and then leaves nothing in memory. -/
namespace Bano

open Lib

structure Housed (b : Base) : Prop where
  apart : (b.nodes.entries.map Prod.snd).Nodup
  known : ∀ e ∈ b.nodes.entries, e.2 < b.nodeMem.next
  attached : ∀ p n, b.nodeMem.cell p = some n → n.socket ∈ b.sockets.entries.map Prod.snd
  listed : ∀ p n, b.nodeMem.cell p = some n → p ∈ b.nodes.entries.map Prod.snd
  socketsApart : (b.sockets.entries.map Prod.snd).Nodup
  socketListed : ∀ p k, b.socketMem.cell p = some k → p ∈ b.sockets.entries.map Prod.snd

theorem Stocked.housed (stocked : Stocked b) : Housed b := by
  refine ⟨stocked.nodesApart,fun e member => ?_,fun p n cell => ?_,stocked.nodeListed,stocked.socketsApart,
    stocked.socketListed⟩
  · obtain ⟨n,cell⟩ := stocked.node e member
    exact Heap.lt_next cell
  · obtain ⟨e,member,rfl⟩ := List.mem_map.mp (stocked.nodeListed p n cell)
    exact stocked.attached e member n cell

namespace Housed

/-- Nothing that the list of nodes does not lose happens to it. -/
theorem calm (housed : Housed b) (calm : Calm b b') (nodes : b.nodes.entries <+: b'.nodes.entries)
    (sockets : SameSockets b b') :
    Housed b' := by
  have same : b'.nodes.entries = b.nodes.entries := calm.nodes.eq_of_length_le nodes.length_le
  refine ⟨same ▸ housed.apart,?_,fun p n' cell' => ?_,fun p n' cell' => ?_,sockets.sockets ▸ housed.socketsApart,?_⟩
  · rw [same,calm.next]
    exact housed.known
  · obtain ⟨n,cell,face⟩ := calm.face p n' cell'
    obtain ⟨_,_,socket,_⟩ := face_fields face
    rw [sockets.sockets,socket]
    exact housed.attached p n cell
  · obtain ⟨n,cell,_⟩ := calm.face p n' cell'
    rw [same]
    exact housed.listed p n cell
  · rw [sockets.sockets,sockets.socketMem]
    exact housed.socketListed

theorem setNode (housed : Housed b) (cell : b.nodeMem.cell node = some n) (pairs : Store NodeVal) :
    Housed (b.setNode node { n with keyvalPairs := pairs }) := by
  have old : ∀ p n', (b.setNode node { n with keyvalPairs := pairs }).nodeMem.cell p = some n' →
      ∃ m, b.nodeMem.cell p = some m ∧ n'.socket = m.socket := by
    intro p n' cell'
    rw [setNode_nodeMem cell] at cell'
    split at cell'
    · next here =>
      obtain rfl := Option.some.inj cell'
      exact ⟨n,here ▸ cell,rfl⟩
    · exact ⟨n',cell',rfl⟩
  refine ⟨housed.apart,housed.known,fun p n' cell' => ?_,fun p n' cell' => ?_,housed.socketsApart,housed.socketListed⟩
  · obtain ⟨m,cell,socket⟩ := old p n' cell'
    exact socket ▸ housed.attached p m cell
  · obtain ⟨m,cell,_⟩ := old p n' cell'
    exact housed.listed p m cell

theorem addPair (housed : Housed b) (cell : b.nodeMem.cell node = some n) (env : FrameEnv) (msg : BanoMsg) :
    Housed (addPair env b node n msg) := by
  rw [addPair_eq cell]
  have stored := housed.setNode cell (storedPairs env n msg)
  exact ⟨stored.apart,stored.known,stored.attached,stored.listed,stored.socketsApart,stored.socketListed⟩

theorem registered (housed : Housed b)
    (entries : nodes.entries = b.nodes.entries ++ [(li,b.nodeMem.next)]) (addr : U32)
    (listed : socket ∈ b.sockets.entries.map Prod.snd) : Housed (registered b nodes addr socket) := by
  have cells : ∀ p n, (b.nodeMem.alloc (banoNodeAlloc addr socket)).cell p = some n →
      p = b.nodeMem.next ∧ n.socket = socket ∨ b.nodeMem.cell p = some n := by
    intro p n cell
    by_cases here : p = b.nodeMem.next
    · subst here
      obtain rfl := Option.some.inj ((Heap.alloc_cell_next _ _).symm.trans cell)
      exact .inl ⟨rfl,rfl⟩
    · exact .inr ((Heap.alloc_cell_other here _).symm.trans cell)
  refine ⟨?_,?_,fun p n cell => ?_,fun p n cell => ?_,housed.socketsApart,housed.socketListed⟩
  · show (nodes.entries.map Prod.snd).Nodup
    rw [entries,List.map_append,List.nodup_append]
    refine ⟨housed.apart,by simp,?_⟩
    rintro p early _ last rfl
    obtain ⟨e,member,rfl⟩ := List.mem_map.mp early
    exact absurd (List.mem_singleton.mp last) (Nat.ne_of_lt (housed.known e member))
  · show ∀ e ∈ nodes.entries, e.2 < b.nodeMem.next + 1
    intro e member
    rw [entries] at member
    rcases List.mem_append.mp member with early | last
    · exact Nat.lt_succ_of_lt (housed.known e early)
    · obtain rfl := List.mem_singleton.mp last
      exact Nat.lt_succ_self _
  · rcases cells p n cell with ⟨_,rfl⟩ | old
    · exact listed
    · exact housed.attached p n old
  · show p ∈ nodes.entries.map Prod.snd
    rw [entries,List.map_append,List.mem_append]
    rcases cells p n cell with ⟨rfl,_⟩ | old
    · exact .inr (by simp)
    · exact .inl (housed.listed p n old)

theorem dispatch (housed : Housed b) (result : dispatch linfo env b msg node = some b') : Housed b' := by
  have nodes := (dispatch_notices result).nodes
  have sockets := dispatch_sameSockets result
  by_cases set : msg.op = msgOpSet
  · obtain ⟨n,cell,calm⟩ := dispatch_cell set result
    have added := addPair_sameSockets cell env msg
    have same : (Bano.addPair env b node n msg).nodes = b.nodes := by rw [addPair_eq cell]; rfl
    exact (housed.addPair cell env msg).calm calm (same ▸ nodes)
      ⟨sockets.sockets.trans added.sockets.symm,sockets.socketMem.trans added.socketMem.symm⟩
  · exact housed.calm (dispatch_calm set result) nodes sockets

theorem handleBanoMsg (housed : Housed b) (listed : socket ∈ b.sockets.entries.map Prod.snd)
    (result : handleBanoMsg linfo env b socket msg = some (err,b')) : Housed b' := by
  rcases handleBanoMsg_cases result with rfl | ⟨node,_,handled⟩ | ⟨nodes,mid,posts,es,entries,called,_,handled⟩
  · exact housed
  · exact housed.dispatch handled
  · have added := housed.registered entries (decMsg b msg).saddr listed
    have told : Housed { Bano.registered b nodes (decMsg b msg).saddr socket with trace := b.trace ++ es } :=
      ⟨added.apart,added.known,added.attached,added.listed,added.socketsApart,added.socketListed⟩
    have called := runPosts_grows called
    have greeted : Housed mid := told.calm called.calm (called.nodes ▸ List.prefix_rfl) called.sameSockets
    exact greeted.dispatch handled

theorem readMsg (housed : Housed b) (result : readMsg linfo env b li (.msg msg) = some b') : Housed b' := by
  obtain ⟨socket,found,result⟩ := Option.bind_eq_some_iff.mp result
  obtain ⟨k,_,result⟩ := Option.bind_eq_some_iff.mp result
  have listed := List.mem_map_of_mem (f := Prod.snd) (LinkedList.data_eq_some.mp found)
  simp only at result
  split at result
  · obtain ⟨⟨_,mid⟩,handled,same⟩ := Option.bind_eq_some_iff.mp result
    obtain rfl := Option.some.inj same
    exact housed.handleBanoMsg listed handled
  · obtain rfl := Option.some.inj result
    exact housed

theorem handleHttpdMsg (housed : Housed b) (result : handleHttpdMsg env b msg = some (err,b')) : Housed b' := by
  by_cases rst : msg.op = .rst
  · rcases handleHttpdMsg_rst rst result with ⟨_,rfl⟩ | ⟨node,n,_,cell,rfl⟩
    · exact housed
    · exact housed.setNode cell _
  · exact housed.calm (handleHttpdMsg_calm rst result)
      (show Notices False b b' from handleHttpdMsg_notices result).nodes
      (handleHttpdMsg_sameSockets result)

end Housed

/-- The steps of a service in which allocations and writes succeed. -/
def Service.Allowed : Service → Loop → Prop
  | .loop label, s => label.Allowed s
  | .http li _ _, s => s.control = .idle ∧ ∃ socket, (li,socket) ∈ s.base.sockets.entries ∧
      s.base.socketMem.cell socket = some ⟨.httpd⟩

structure Running (s : Loop) : Prop extends Steady s where
  housed : Housed s.base
  origins : Origins s.base

theorem Stocked.running (stocked : Stocked b) : Running ⟨b,none,.idle⟩ :=
  ⟨stocked.steady,stocked.housed,stocked.toIdle.origins⟩

theorem Alive.setPairs {b : Base} {node : Ptr} (alive : Alive b status) (cell : b.nodeMem.cell node = some n)
    (pairs : Store NodeVal) :
    Alive (b.setNode node { n with keyvalPairs := pairs }) status := by
  have live : ∀ p k, b.nodeMem.cell p = some k → ∃ k',
      (b.setNode node { n with keyvalPairs := pairs }).nodeMem.cell p = some k' := by
    intro p k live
    rw [setNode_nodeMem cell]
    split
    · exact ⟨_,rfl⟩
    · exact ⟨k,live⟩
  refine ⟨?_,alive.settled,fun e member => ?_,alive.socket⟩
  · refine alive.placed.frame (fun p k cell' => .inl ?_) live (fun _ r cell => ⟨r,cell,rfl,rfl,rfl,rfl⟩)
      (fun _ _ gone => gone) (Nat.le_refl _) alive.placed.tailed (fun _ => Iff.rfl) (fun _ => rfl) (fun _ => Iff.rfl)
    rw [setNode_nodeMem cell] at cell'
    split at cell'
    · next here =>
      obtain rfl := Option.some.inj cell'
      exact ⟨n,here ▸ cell,rfl,rfl⟩
    · exact ⟨k,cell',rfl,rfl⟩
  · obtain ⟨k,cell'⟩ := alive.node e member
    exact live e.2 k cell'

/-- A request of the HTTP server is handled, whatever memory there is. -/
theorem handleHttpdMsg_alive {b : Base} (alive : Alive b status) (env : HttpEnv) (msg : HttpdMsg) :
    ∃ err b' status', handleHttpdMsg env b msg = some (err,b') ∧ Alive b' status' := by
  have handled : ∃ err b', handleHttpdMsg env b msg = some (err,b') := by
    rcases findNodeByAddr_live alive.node msg.naddr with unknown | ⟨node,n,known,cell⟩
    · unfold handleHttpdMsg
      rw [unknown]
      cases msg.op <;> exact ⟨_,b,rfl⟩
    by_cases request : msg.op = .get ∨ msg.op = .set
    · rw [handleHttpdMsg_request request known]
      split
      · exact ⟨_,b,rfl⟩
      split
      · exact ⟨_,b,rfl⟩
      rcases n.postedIos.addTail_cases env.mallocItem b.ioMem.next with failed | ⟨posted,added,_⟩
      · simp [banoPostIo,cell,failed]
      · simp [banoPostIo,cell,added]
    · cases op : msg.op with
      | get => exact absurd (.inl op) request
      | set => exact absurd (.inr op) request
      | cam | invalid =>
        unfold handleHttpdMsg
        rw [op]
        exact ⟨_,b,rfl⟩
      | rst =>
        simp only [handleHttpdMsg,op,known,cell,Option.bind_eq_bind,Option.bind_some]
        split
        · exact ⟨_,_,rfl⟩
        · exact ⟨_,_,rfl⟩
  obtain ⟨err,b',handled⟩ := handled
  by_cases rst : msg.op = .rst
  · rcases handleHttpdMsg_rst rst handled with ⟨_,rfl⟩ | ⟨node,n,_,cell,rfl⟩
    · exact ⟨err,_,status,handled,alive⟩
    · exact ⟨err,_,status,handled,alive.setPairs cell _⟩
  · rcases handleHttpdMsg_posts rst handled with rfl | ⟨p,posted⟩
    · exact ⟨err,_,status,handled,alive⟩
    · have targets : PostsTo b [p] := by
        intro q member
        obtain rfl := List.mem_singleton.mp member
        obtain ⟨n,cell,_⟩ := Option.bind_eq_some_iff.mp (Option.bind_eq_some_iff.mp posted).choose_spec.1
        exact ⟨n,cell⟩
      obtain ⟨mid,status',called,carried⟩ := runPosts_carried alive.placed alive.settled targets
      have same : runPosts [p] b = some b' := by simp [runPosts,posted]
      obtain rfl := Option.some.inj (same.symm.trans called)
      exact ⟨err,_,status',handled,carried.alive alive⟩

theorem handleHttpdMsg_origins (origins : Origins b)
    (result : handleHttpdMsg env b msg = some (err,b')) : Origins b' := by
  by_cases rst : msg.op = .rst
  · rcases handleHttpdMsg_rst rst result with ⟨_,rfl⟩ | ⟨node,n,_,cell,rfl⟩
    · exact origins
    · exact origins.setNode fun io => origins.listed node n cell io
  · rcases handleHttpdMsg_posts rst result with rfl | ⟨p,posted⟩
    · exact origins
    · exact postNew_origins origins posted

theorem idleStep_sameSockets {s : Loop} {label : Label} (allowed : label.Allowed s)
    (taken : Loop.idleStep linfo label s = some s') : SameSockets s.base s'.base := by
  cases label with
  | newNode li posts =>
    obtain ⟨b,called,rfl⟩ := bind_some.mp taken
    exact doNewNode_sameSockets called
  | post p =>
    obtain ⟨b,posted,rfl⟩ := bind_some.mp taken
    exact (postNew_grows posted).sameSockets
  | addTimer mallocTimer mallocItem =>
    unfold Loop.idleStep at taken
    simp only at taken
    split at taken
    · obtain ⟨⟨timer,timers⟩,_,taken⟩ := Option.bind_eq_some_iff.mp taken
      split at taken <;> obtain rfl := Option.some.inj taken <;> exact ⟨rfl,rfl⟩
    · obtain rfl := Option.some.inj taken
      exact .refl _
  | peek li env msg =>
    obtain ⟨b,handled,rfl⟩ := bind_some.mp taken
    exact readMsg_sameSockets handled
  | read li env outcome =>
    obtain ⟨b,handled,rfl⟩ := bind_some.mp taken
    cases outcome with
    | msg m => exact readMsg_sameSockets handled
    | error => exact allowed.2.2.elim
    | again =>
      obtain ⟨_,_,handled⟩ := Option.bind_eq_some_iff.mp handled
      obtain ⟨_,_,handled⟩ := Option.bind_eq_some_iff.mp handled
      obtain rfl := Option.some.inj handled
      exact .refl _
  | write li =>
    obtain ⟨node,_,taken⟩ := Option.bind_eq_some_iff.mp taken
    obtain ⟨n,_,rfl⟩ := bind_some.mp taken
    exact .refl _
  | postIo env => cases taken
  | select ready tv env => exact selectTimer_sameSockets taken
  | selectFails =>
    obtain rfl := Option.some.inj taken
    exact .refl _
  | close => exact allowed.elim

theorem step_sameSockets {s : Loop} (allowed : label.Allowed s) (taken : Loop.step linfo label s = some s') :
    SameSockets s.base s'.base := by
  unfold Loop.step at taken
  split at taken
  · exact idleStep_sameSockets allowed taken
  · obtain ⟨n,_,taken⟩ := Option.bind_eq_some_iff.mp taken
    obtain ⟨next,_,taken⟩ := Option.bind_eq_some_iff.mp taken
    obtain ⟨b,written,rfl⟩ := bind_some.mp taken
    exact postIo_sameSockets written
  · exact allowed.elim
  · cases taken

theorem cursor_open (node : Ptr) (next : Option Ptr) : cursor node next ≠ .closed := by
  cases next <;> exact Control.noConfusion

theorem selectTimer_control {s s' : Loop} (taken : selectTimer ready tv env s = some s') :
    s'.control = s.control := by
  rcases selectTimer_cases taken with rfl | ⟨t,_,timers,_,_,rfl | ⟨_,b,_,rfl⟩ | ⟨_,b,q,_,_,rfl⟩⟩ <;> rfl

/-- An allowed step does not close the base. -/
theorem step_open {s : Loop} {label : Label} (allowed : label.Allowed s) (taken : Loop.step linfo label s = some s') :
    s'.control ≠ .closed := by
  unfold Loop.step at taken
  split at taken
  next label _ _ idle =>
    have kept : ∀ b, ({ s with base := b } : Loop).control ≠ .closed := by simp [idle]
    cases label with
    | newNode | post | peek | read =>
      obtain ⟨b,_,rfl⟩ := bind_some.mp taken
      exact kept b
    | addTimer mallocTimer mallocItem =>
      unfold Loop.idleStep at taken
      simp only at taken
      split at taken
      · obtain ⟨⟨timer,timers⟩,_,taken⟩ := Option.bind_eq_some_iff.mp taken
        split at taken <;> obtain rfl := Option.some.inj taken
        · simp
        · simp [idle]
      · obtain rfl := Option.some.inj taken
        exact kept s.base
    | write li =>
      obtain ⟨node,_,taken⟩ := Option.bind_eq_some_iff.mp taken
      obtain ⟨n,_,rfl⟩ := bind_some.mp taken
      exact cursor_open _ _
    | postIo env => cases taken
    | select ready tv env =>
      rw [selectTimer_control taken,idle]
      simp
    | selectFails =>
      obtain rfl := Option.some.inj taken
      simp
    | close => exact allowed.elim
  · obtain ⟨n,_,taken⟩ := Option.bind_eq_some_iff.mp taken
    obtain ⟨next,_,taken⟩ := Option.bind_eq_some_iff.mp taken
    obtain ⟨b,written,rfl⟩ := bind_some.mp taken
    exact cursor_open _ _
  · exact allowed.elim
  · cases taken

theorem snrfFrame_socket (frame : snrfFrame b li env' msg' = some (socket,env,msg)) :
    socket ∈ b.sockets.entries.map Prod.snd := by
  obtain ⟨socket',found,frame⟩ := Option.bind_eq_some_iff.mp frame
  obtain ⟨k,_,frame⟩ := Option.bind_eq_some_iff.mp frame
  split at frame
  · obtain ⟨rfl,_⟩ := Prod.mk.inj (Option.some.inj frame)
    exact List.mem_map_of_mem (f := Prod.snd) (LinkedList.data_eq_some.mp found)
  · cases frame

theorem frame_socket {s : Loop} {label : Label} (frame : label.frame s = some (socket,env,msg)) :
    socket ∈ s.base.sockets.entries.map Prod.snd := by
  cases label with
  | peek li env' msg' => exact snrfFrame_socket frame
  | read li env' outcome =>
    cases outcome with
    | msg msg' => exact snrfFrame_socket frame
    | again | error => cases frame
  | _ => cases frame

theorem step_housed {s : Loop} (housed : Housed s.base) (allowed : label.Allowed s)
    (taken : Loop.step linfo label s = some s') : Housed s'.base := by
  rcases step_heard taken with ⟨_,calm⟩ | ⟨socket,env,msg,frame,_⟩
  · rcases step_notices taken with notices | ⟨closed,_⟩
    · exact housed.calm calm notices.nodes (step_sameSockets allowed taken)
    · exact absurd closed (step_open allowed taken)
  · obtain ⟨ret,handled⟩ := step_frame frame taken
    exact housed.handleBanoMsg (frame_socket frame) handled

/-- An allowed step has a result, and the loop goes on with the same sockets. -/
theorem Running.step {s : Loop} (running : Running s) (noTimer : linfo.timerFn = false)
    (allowed : service.Allowed s) :
    ∃ s', Service.step linfo service s = some s' ∧ Running s' ∧ SameSockets s.base s'.base := by
  cases service with
  | loop label =>
    obtain ⟨s',taken,steady⟩ := running.toSteady.step noTimer allowed
    exact ⟨s',taken,⟨steady,step_housed running.housed allowed taken,(step_tells running.origins taken).origins⟩,
      step_sameSockets allowed taken⟩
  | http li env msg =>
    obtain ⟨idle,socket,listed,httpd⟩ := allowed
    obtain ⟨status,alive⟩ := running.alive
    obtain ⟨err,b,status',handled,alive'⟩ := handleHttpdMsg_alive alive env msg
    have found := LinkedList.data_eq_some.mpr listed
    refine ⟨{ s with base := b },by simp [Service.step,idle,readHttpd,found,httpd,handled],
      ⟨running.toSteady.idle idle alive',running.housed.handleHttpdMsg handled,
        handleHttpdMsg_origins running.origins handled⟩,
      handleHttpdMsg_sameSockets handled⟩

/-- Every state of a run of allowed steps. -/
theorem reach_running {s s' : Loop} (running : Running s) (noTimer : linfo.timerFn = false)
    (reach : Reach (Service.step linfo) Service.Allowed s labels s') : Running s' ∧ SameSockets s.base s'.base := by
  apply reach.invariant (fun t => Running t ∧ SameSockets s.base t.base) ⟨running,.refl _⟩
  intro label u v kept allowed taken
  obtain ⟨v',taken',running',same⟩ := kept.1.step noTimer allowed
  obtain rfl := Option.some.inj (taken.symm.trans taken')
  exact ⟨running',kept.2.trans same⟩

/-- An io is listed by one node, in one of its lists, at one item. -/
theorem Placed.listedIos_nodup {b : Base}
    (placed : Placed b status) (cell : b.nodeMem.cell node = some n) : (listedIos n).Nodup := by
  have posted : (n.postedIos.entries.map Prod.snd).Nodup := by
    refine List.Nodup.map_on (fun e one d other same => ?_) (List.Nodup.of_map _ n.postedIos.nodup)
    have mine := (placed.posted node n cell e.1 e.2).mp one
    exact Prod.ext ((placed.posted_only cell mine).2.1 d.1 (same ▸ other)).symm same
  have pending : (n.pendingIos.entries.map Prod.snd).Nodup := by
    refine List.Nodup.map_on (fun e one d other same => ?_) (List.Nodup.of_map _ n.pendingIos.nodup)
    obtain ⟨t,mine⟩ := (placed.pending node n cell e.1 e.2).mp one
    exact Prod.ext ((placed.pending_only cell mine).2.1 d.1 (same ▸ other)).symm same
  rw [listedIos,List.map_append,List.nodup_append]
  refine ⟨posted,pending,?_⟩
  rintro io early _ late rfl
  obtain ⟨e,one,rfl⟩ := List.mem_map.mp early
  obtain ⟨d,other,same⟩ := List.mem_map.mp late
  have mine := (placed.posted node n cell e.1 e.2).mp one
  exact (placed.posted_only cell mine).2.2 d.1 (same ▸ other)

/-- The invariant of the running loop says all that bano_close relies on. -/
theorem Running.consistent {s : Loop} (running : Running s) : Consistent s.base := by
  obtain ⟨status,alive⟩ := running.alive
  have placed := alive.placed
  have housed := running.housed
  refine ⟨alive.node,housed.apart,alive.socket,housed.socketsApart,fun e _ n cell => housed.attached e.2 n cell,
    fun e _ n cell i member => ?_,fun e _ n cell => placed.listedIos_nodup cell,placed.tailed.queued.half,
    fun e _ n cell i member r ioCell => ?_,fun d member ti cell node it data => ?_⟩
  · rcases List.mem_append.mp member with posted | pending
    · obtain ⟨_,r,live,own,_⟩ := placed.held _ _ ((placed.posted e.2 n cell i.1 i.2).mp posted)
      exact ⟨r,live,own⟩
    · obtain ⟨t,mine⟩ := (placed.pending e.2 n cell i.1 i.2).mp pending
      obtain ⟨_,_,r,live,own,_⟩ := placed.held _ _ mine
      exact ⟨r,live,own⟩
  · obtain ⟨t,mine⟩ := (placed.pending e.2 n cell i.1 i.2).mp member
    obtain ⟨_,_,r',live,_,_,_,timer⟩ := placed.held _ _ mine
    obtain rfl := Option.some.inj (live.symm.trans ioCell)
    obtain ⟨d,listed,rfl⟩ := List.mem_map.mp ((placed.timers t).mpr ⟨i.2,_,mine,rfl⟩)
    exact ⟨d,listed,timer⟩
  · have timed : d.2 ∈ timersOf s.base.timers := List.mem_map_of_mem member
    obtain ⟨node',li,io,mine,⟨n,it',cell',data',listed⟩,_⟩ := placed.designates alive.settled timed
    have same : designated s.base.timers d.2 = some (node,it) := by simp [designated,cell,data]
    rw [data'] at same
    obtain ⟨rfl,rfl⟩ := Prod.mk.inj (Option.some.inj same)
    obtain ⟨e,there,rfl⟩ := List.mem_map.mp (housed.listed node' n cell')
    exact ⟨e,there,rfl,n,cell',_,listed,rfl⟩

/-- Each timer and its item are freed once. -/
theorem freeTimerItems_some {q : TimerQueue} (timer : ∀ e ∈ es, ∃ ti, q.timers.cell e.2 = some ti)
    (item : ∀ e ∈ es, ∃ k, q.list.items.cell e.1 = some k) (timersApart : (es.map Prod.snd).Nodup)
    (itemsApart : (es.map Prod.fst).Nodup) : ∃ q', freeTimerItems es q = some q' := by
  induction es generalizing q with
  | nil => exact ⟨_,rfl⟩
  | cons e es ih =>
    obtain ⟨otherTimer,timersApart⟩ := List.nodup_cons.mp timersApart
    obtain ⟨otherItem,itemsApart⟩ := List.nodup_cons.mp itemsApart
    obtain ⟨ti,cell⟩ := timer e List.mem_cons_self
    obtain ⟨k,link⟩ := item e List.mem_cons_self
    obtain ⟨q',rest⟩ := ih (q := ⟨⟨q.list.head,q.list.tail,q.list.items.erase e.1⟩,q.timers.erase e.2⟩)
      (fun d member => by
        obtain ⟨ti',cell'⟩ := timer d (List.mem_cons_of_mem _ member)
        have other : d.2 ≠ e.2 := fun same => otherTimer (same ▸ List.mem_map_of_mem member)
        exact ⟨ti',(Heap.erase_cell_other other _).trans cell'⟩)
      (fun d member => by
        obtain ⟨k',link'⟩ := item d (List.mem_cons_of_mem _ member)
        have other : d.1 ≠ e.1 := fun same => otherItem (same ▸ List.mem_map_of_mem member)
        exact ⟨k',(Heap.erase_cell_other other _).trans link'⟩) timersApart itemsApart
    exact ⟨q',by simp [freeTimerItems,Heap.free_live cell,Heap.free_live link,rest]⟩

theorem Tailed.fini {q : TimerQueue} (tailed : Tailed q) : ∃ q', banoTimerFini q = some q' := by
  refine freeTimerItems_some (fun e member => ?_) (fun e member => ?_) tailed.nodup tailed.queued.linked.nodup
  · obtain ⟨ti,cell,_⟩ := tailed.queued.timer e member
    exact ⟨ti,cell⟩
  · obtain ⟨k,cell,_⟩ := tailed.queued.linked.live member
    exact ⟨k,cell⟩

/-- All the ios of the nodes are gone. -/
theorem freeNodeItems_ios (result : freeNodeItems es b = some b') (apart : (es.map Prod.snd).Nodup) :
    ∀ e ∈ es, ∀ n, b.nodeMem.cell e.2 = some n → ∀ io ∈ listedIos n, b'.ioMem.cell io = none := by
  induction es generalizing b with
  | nil => simp
  | cons d es ih =>
    obtain ⟨outside,apart⟩ := List.nodup_cons.mp apart
    obtain ⟨mid,first,rest⟩ := Option.bind_eq_some_iff.mp result
    obtain ⟨m,cell,freed⟩ := banoNodeFree_released first
    intro e member n cell' io listed
    rcases List.mem_cons.mp member with rfl | later
    · obtain rfl := Option.some.inj (cell.symm.trans cell')
      obtain ⟨ios,others,_⟩ := freeNodeItems_released rest
      rw [others.io,freed.io,if_pos listed,ite_self]
    · have other : e.2 ∉ [d.2] := by
        intro same
        exact outside (List.mem_singleton.mp same ▸ List.mem_map_of_mem later)
      refine ih rest apart e later n ?_ io listed
      rw [freed.node,if_neg other,cell']

/-- bano_close has a result, and no node, no socket and no io is left in memory. -/
theorem Running.close {s : Loop} (running : Running s) :
    ∃ b', banoClose s.base = some b' ∧ b'.nodeMem.Vacant ∧ b'.socketMem.Vacant ∧ b'.ioMem.Vacant := by
  obtain ⟨status,alive⟩ := running.alive
  have consistent := running.consistent
  obtain ⟨timers,stopped⟩ := alive.placed.tailed.fini
  obtain ⟨mid,nodes⟩ := freeNodeItems_some (b := { s.base with timers := timers }) consistent.node
    consistent.nodesApart
    consistent.io consistent.iosApart
  obtain ⟨ios,released,_⟩ := freeNodeItems_released nodes
  have socketMem : mid.socketMem = s.base.socketMem := by rw [released.same]
  have sockets : mid.sockets = s.base.sockets := by rw [released.same]
  obtain ⟨b',freed,nodeMem,cells⟩ := freeSocketItems_some (b := { mid with nodes := .empty }) rfl
    (show ∀ e ∈ mid.sockets.entries, ∃ k, mid.socketMem.cell e.2 = some k by
      rw [sockets,socketMem]
      exact consistent.socket)
    (show (mid.sockets.entries.map Prod.snd).Nodup by
      rw [sockets]
      exact consistent.socketsApart)
  have noNode : mid.nodeMem.Vacant := by
    intro p
    rw [released.node]
    split
    · rfl
    · next outside =>
        exact Option.eq_none_iff_forall_ne_some.mpr fun n cell => outside (running.housed.listed p n cell)
  have noIo : mid.ioMem.Vacant := by
    intro io
    apply Option.eq_none_iff_forall_ne_some.mpr
    intro r cell
    have live : s.base.ioMem.cell io = some r := by
      rw [released.io] at cell
      split at cell
      · cases cell
      · exact cell
    -- an io in memory was accepted, and is listed by its node
    obtain ⟨node,r0,posted,_⟩ := running.origins.record io r live
    obtain ⟨st,mine⟩ := (alive.placed.accepted io).mpr ⟨node,r0,posted⟩
    have gone : ∀ p n, s.base.nodeMem.cell p = some n → io ∉ listedIos n := by
      intro p n there listed
      obtain ⟨e,member,rfl⟩ := List.mem_map.mp (running.housed.listed p n there)
      rw [freeNodeItems_ios nodes consistent.nodesApart e member n there io listed] at cell
      cases cell
    cases st with
    | posted p li =>
      obtain ⟨⟨n,there⟩,_⟩ := alive.placed.held io _ mine
      exact gone p n there (mem_listedIos.mpr (.inl ⟨li,(alive.placed.posted_only there mine).1⟩))
    | pending p li t =>
      obtain ⟨⟨n,there⟩,_⟩ := alive.placed.held io _ mine
      exact gone p n there (mem_listedIos.mpr (.inr ⟨li,(alive.placed.pending_only there mine).1⟩))
    | taken t => exact alive.settled io t mine
    | released =>
      rw [alive.placed.held io _ mine] at live
      cases live
  refine ⟨{ b' with sockets := .empty },by simp [banoClose,stopped,nodes,freed],fun p => ?_,fun p => ?_,fun p => ?_⟩
  · exact (congrArg (fun mem => mem.cell p) nodeMem).trans (noNode p)
  · apply (cells p).trans
    split
    · rfl
    · next outside =>
      refine Option.eq_none_iff_forall_ne_some.mpr fun k cell => outside ?_
      exact sockets ▸ running.housed.socketListed p k (socketMem ▸ cell)
  · exact (congrArg (fun mem => mem.cell p) (freeSocketItems_ios rfl freed).1).trans (noIo p)

end Bano
