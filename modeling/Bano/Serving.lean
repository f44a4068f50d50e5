import Bano.Lib.Fuel
import Bano.Room
import Bano.TurnSteps

/-! The loop with an outside that obliges: memory and writes do not fail, no socket is lost, and callbacks post to
nodes that exist. Then no turn goes wrong and each returns, unless it sleeps in select. -/
namespace Bano

open Lib

namespace EventLoop

structure Obliging (outside : Outside) : Prop where
  start : ∀ li b, PostsTo b (outside.start li b)
  peek : ∀ env ∈ outside.turns, ∀ li m fn, (m,fn) ∈ env.buffered li → ∀ b, FrameReady (fn b) b m
  noError : ∀ env ∈ outside.turns, ∀ li, (env.read li).result ≠ .error
  read : ∀ env ∈ outside.turns, ∀ li b, FrameReady ((env.read li).env b) b (env.read li).frame
  remaining : ∀ env ∈ outside.turns, ∀ tv, (env.select.remaining tv).ms ≤ tv.ms
  timeout : ∀ env ∈ outside.turns, ∀ b, (env.timeout b).mallocPosted = true ∧ PostsTo b (env.timeout b).posts
  write : ∀ env ∈ outside.turns, ∀ li it b, (env.write li it b).writeFails = false ∧
    ((env.write li it b).mallocPending = true ∧
    (env.write li it b).mallocTimer = true ∧ (env.write li it b).mallocTimerItem = true) ∧
      PostsTo b (env.write li it b).posts

/-- What completes when an io is written posts no io beyond the first `most`. -/
def PostsWithin (outside : Outside) (most : Nat) : Prop := ∀ env ∈ outside.turns, ∀ li it b,
  (env.write li it b).posts ≠ [] → b.ioMem.next + (env.write li it b).posts.length ≤ most

/-- select waits for a descriptor that does not become ready, without a timer. -/
structure Sleeps (getFd : Ptr → Int) (env : TurnEnv) (s : Loop) (rset wset : List Int) (nfd : Int) : Prop where
  idle : s.control = .idle
  sets : fillSets getFd s.base = some (rset,wset,nfd)
  untimed : banoTimerGetNext s.base.timers = some none
  unreadable : ∀ fd ∈ rset, env.select.readable fd = false
  unwritable : ∀ fd ∈ wset, env.select.writable fd = false

variable {linfo : LoopInfo} {getFd : Ptr → Int} {env : TurnEnv} {outside : Outside}

theorem Obliging.heard (obliging : Obliging outside) (turn : env ∈ outside.turns) (li : Ptr) (b : Base) :
    match (env.read li).result with
    | .again => True
    | .error => False
    | .msg msg => FrameReady ((env.read li).env b) b msg := by
  have frame := obliging.read env turn li b
  have noError := obliging.noError env turn li
  unfold ReadEnv.result at noError ⊢
  cases ret : (env.read li).ret with
  | again => trivial
  | error => exact absurd (by rw [ret]) noError
  | ok => exact frame

theorem Obliging.allowed {s : Loop} (obliging : Obliging outside) (offered : Offers outside service s) :
    service.Allowed s := by
  cases offered with
  | newNode idle listed => exact ⟨idle,⟨_,listed⟩,obliging.start _ _⟩
  | addTimer turn idle => exact idle
  | peek turn idle listed buffered => exact ⟨idle,⟨_,listed⟩,obliging.peek _ turn _ _ _ buffered _⟩
  | read turn idle listed => exact ⟨idle,⟨_,listed⟩,obliging.heard turn _ _⟩
  | http turn idle listed httpd => exact ⟨idle,_,listed,httpd⟩
  | select ready turn idle next =>
    obtain ⟨mallocs,targets⟩ := obliging.timeout _ turn _
    refine ⟨idle,mallocs,targets,fun t tv' head => ?_⟩
    obtain rfl := Option.some.inj (next.symm.trans head)
    exact obliging.remaining _ turn tv'
  | selectFails idle => exact idle
  | write idle listed => exact ⟨idle,_,listed⟩
  | postIo li turn writing =>
    obtain ⟨writes,mallocs,targets⟩ := obliging.write _ turn li _ _
    exact ⟨⟨_,_,writing⟩,writes,mallocs,targets⟩

theorem Obliging.reach {s t : Loop} (obliging : Obliging outside) (noTimer : linfo.timerFn = false)
    (running : Running s)
    (reach : Reach (Service.step linfo) (Offers outside) s labels t) : Running t ∧ SameSockets s.base t.base :=
  reach_running running noTimer (reach.mono fun _ _ => obliging.allowed)

/-- Nothing is broken while the loop runs. -/
theorem Obliging.sound {s : Loop} (obliging : Obliging outside) (noTimer : linfo.timerFn = false)
    (running : Running s) :
    ¬Broken linfo outside s := by
  obtain ⟨status,alive⟩ := running.alive
  intro broken
  cases broken with
  | step offered stuck =>
    obtain ⟨s',taken,_⟩ := running.step noTimer (obliging.allowed offered)
    rw [stuck] at taken
    cases taken
  | timers stuck =>
    rcases banoTimerGetNext_head alive.placed.tailed with ⟨_,next⟩ | ⟨_,_,_,_,_,_,_,next⟩ <;>
      rw [stuck] at next <;> cases next
  | socket listed stuck =>
    obtain ⟨k,cell⟩ := alive.socket _ listed
    rw [stuck] at cell
    cases cell
  | node listed stuck =>
    obtain ⟨n,cell⟩ := alive.node _ listed
    rw [stuck] at cell
    cases cell
  | nodeSocket listed cell stuck =>
    obtain ⟨e,member,same⟩ := List.mem_map.mp (running.housed.attached _ _ cell)
    obtain ⟨k,live⟩ := alive.socket e member
    rw [same,stuck] at live
    cases live

/-- What is not still running has a result, in a state that a run of the steps comes to. -/
theorem Obliging.result {s : Loop} {post : α → Loop → Prop} {o : Outcome α} (obliging : Obliging outside)
    (noTimer : linfo.timerFn = false) (running : Running s) (refines : Refines linfo outside s post o)
    (ended : o ≠ .running) :
    ∃ a, o = .done a ∧ ∃ labels t, Reach (Service.step linfo) (Offers outside) s labels t ∧ Running t ∧
      SameSockets s.base t.base ∧ post a t := by
  cases o with
  | running => exact absurd rfl ended
  | fault =>
    obtain ⟨labels,t,reach,broken⟩ := refines
    exact absurd broken (obliging.sound noTimer (obliging.reach noTimer running reach).1)
  | done a =>
    obtain ⟨labels,t,reach,holds⟩ := refines
    obtain ⟨running',same⟩ := obliging.reach noTimer running reach
    exact ⟨a,rfl,labels,t,reach,running',same,holds⟩

/-- What returns has done what a run of the steps does. -/
theorem Obliging.comes {s : Loop} {post : α → Loop → Prop} {p : Nat → Outcome α} (obliging : Obliging outside)
    (noTimer : linfo.timerFn = false) (running : Running s) (comes : Comes p (Returns fun _ => True))
    (refines : ∀ fuel, Refines linfo outside s post (p fuel)) :
    Comes p (Returns fun a => ∃ labels t, Reach (Service.step linfo) (Offers outside) s labels t ∧ Running t ∧
      SameSockets s.base t.base ∧ post a t) := by
  apply (comes.every refines).mono
  intro o holds
  obtain ⟨⟨a,rfl,_⟩,refined⟩ := holds
  exact obliging.result noTimer running refined (by simp)

theorem walkSockets_comes {fn : Ptr → Loop → Outcome Loop} {s : Loop} (obliging : Obliging outside)
    (noTimer : linfo.timerFn = false) (running : Running s) (idle : s.control = .idle)
    (call : ∀ {s : Loop} {li socket}, s.control = .idle → (li,socket) ∈ s.base.sockets.entries →
      Refines linfo outside s (fun s' t => Idles s' t ∧
        ∀ p k, p ≠ li → (p,k) ∈ s.base.sockets.entries → (p,k) ∈ s'.base.sockets.entries) (fn li s))
    (ends : ∀ li s, fn li s ≠ .running) :
    Comes (fun fuel => walk nextSocket fn fuel s.base.sockets.list.head s) (Returns fun s' =>
      ∃ labels, Reach (Service.step linfo) (Offers outside) s labels s' ∧ Running s' ∧ s'.control = .idle) := by
  have returns : Comes (fun fuel => walk nextSocket fn fuel s.base.sockets.list.head s) (Returns fun _ => True) := by
    refine (Comes.walk (fun pos t => Running t ∧ t.control = .idle ∧ SameSockets s.base t.base ∧
      ∀ li, pos = some li → ∃ socket, (li,socket) ∈ s.base.sockets.entries) (fun pos _ => s.base.sockets.ahead pos)
      (fun li t here => ?_) ⟨running,idle,.refl _,fun _ => LinkedList.head_listed⟩).mono ?_
    · obtain ⟨running,idle,same,listed⟩ := here
      obtain ⟨socket,listed⟩ := listed li rfl
      obtain ⟨after,next,later⟩ := LinkedList.next_listed listed
      have listed' : (li,socket) ∈ t.base.sockets.entries := same.sockets ▸ listed
      refine ⟨after,by rw [nextSocket,same.sockets,next],Comes.const ?_⟩
      obtain ⟨s',called,labels,u,_,running',same',⟨rfl,idle'⟩,_⟩ :=
        obliging.result noTimer running (call idle listed') (ends li t)
      exact ⟨u,called,⟨running',idle',same.trans same',fun p first => (later p first).2⟩,
        LinkedList.next_ahead listed next⟩
    · rintro o ⟨a,same,_⟩
      exact ⟨a,same,trivial⟩
  refine (obliging.comes noTimer running returns fun fuel => walkSockets_refines idle call).mono fun o holds => ?_
  obtain ⟨a,same,labels,t,reach,running',_,rfl,idle'⟩ := holds
  exact ⟨t,same,labels,reach,running',idle'⟩

theorem done_ends (a : α) : Outcome.done a ≠ .running := by simp

theorem bind_ends {x : Option α} {f : α → Outcome β} (ends : ∀ a, f a ≠ .running) :
    (Outcome.ofOption x >>= f) ≠ .running := by
  cases x with
  | none => simp [Outcome.ofOption]
  | some a => exact ends a

theorem handleBuffered_ends (li : Ptr) (msgs : List (BanoMsg × (Base → FrameEnv))) (s : Loop) :
    handleBuffered linfo li msgs s ≠ .running := by
  induction msgs generalizing s with
  | nil => exact done_ends s
  | cons e msgs ih => exact bind_ends fun b => ih _

theorem peekMsg_ends (li : Ptr) (s : Loop) : peekMsg linfo env li s ≠ .running := by
  refine bind_ends fun socket => bind_ends fun k => ?_
  split
  · exact handleBuffered_ends li _ s
  · exact done_ends s

theorem readMsg_ends (rset : List Int) (li : Ptr) (s : Loop) : readMsg linfo getFd env rset li s ≠ .running := by
  refine bind_ends fun socket => bind_ends fun k => ?_
  split
  · exact done_ends s
  · simp only
    split <;> exact bind_ends fun b => done_ends _

/-- The ios that a node has ahead of the one at the position. -/
def postedAhead (node : Ptr) (pos : Option Ptr) (b : Base) : Nat :=
  match b.nodeMem.cell node with
  | none => 0
  | some n => n.postedIos.ahead pos

/-- The traversal of the posted ios of a node comes to its end, though callbacks post to the node meanwhile. -/
theorem walkPosted_comes {s : Loop} (obliging : Obliging outside) (noTimer : linfo.timerFn = false)
    (within : PostsWithin outside most) (turn : env ∈ outside.turns) (li node : Ptr) (idle : s.control = .idle)
    (running : Running { s with control := cursor node pos }) :
    Comes (fun fuel => walk (nextPosted node) (postIo env li node) fuel pos s) (Returns fun _ => True) := by
  refine (Comes.walk (fun pos t => Running { t with control := cursor node pos } ∧ t.control = .idle)
    (fun pos t => postedAhead node pos t.base + (most - t.base.ioMem.next))
      (fun it t here => ?_) ⟨running,idle⟩).mono ?_
  · obtain ⟨running,idle⟩ := here
    obtain ⟨n,io,cell,listed⟩ : ∃ n io, t.base.nodeMem.cell node = some n ∧ (it,io) ∈ n.postedIos.entries :=
      running.cursor node it rfl
    have offered : Offers outside (.loop (.postIo (env.write li it t.base))) { t with control := .writing node it } :=
      Offers.postIo (s := { t with control := .writing node it }) li turn rfl
    obtain ⟨s',taken,running',_⟩ := running.step noTimer (obliging.allowed offered)
    have taken : _ = some s' := (writing_step linfo node it t (env.write li it t.base)).symm.trans taken
    obtain ⟨next,found,taken⟩ := Option.bind_eq_some_iff.mp taken
    obtain ⟨b,posted,rfl⟩ := Option.map_eq_some_iff.mp taken
    refine ⟨next,found,Comes.const ⟨{ t with base := b },by simp [postIo,posted],⟨running',idle⟩,?_⟩⟩
    obtain ⟨before,rest,split⟩ := List.append_of_mem listed
    obtain ⟨n',before',new,cell',split',room⟩ := postIo_posted posted cell split
    obtain rfl : next = first rest none := by
      have same : nextPosted node t it = some (first rest none) := by simp [nextPosted,cell,LinkedList.next_eq split]
      exact Option.some.inj (found.symm.trans same)
    have here : postedAhead node (some it) t.base = rest.length + 1 := by
      simp only [postedAhead,cell]
      exact LinkedList.ahead_eq split
    have later : postedAhead node (first rest none) b ≤ rest.length + new.length := by
      simp only [postedAhead,cell']
      cases rest with
      | nil => exact Nat.zero_le _
      | cons e rest =>
        rw [first_cons,show some e.1 = first (e :: rest ++ new) none from rfl,LinkedList.ahead_eq split',
          List.length_append]
    have bound := within env turn li it t.base
    rcases postIo_next posted with same | more
    · show postedAhead node (first rest none) b + (most - b.ioMem.next) < _
      omega
    · show postedAhead node (first rest none) b + (most - b.ioMem.next) < _
      by_cases none : (env.write li it t.base).posts = []
      · rw [none] at more
        simp only [List.length_nil] at more
        omega
      · have := bound none
        omega
  · rintro o ⟨a,same,_⟩
    exact ⟨a,same,trivial⟩

theorem writeMsg_comes {s : Loop} (obliging : Obliging outside) (noTimer : linfo.timerFn = false)
    (within : PostsWithin outside most) (turn : env ∈ outside.turns) (wset : List Int) (running : Running s)
    (idle : s.control = .idle) (listed : (li,node) ∈ s.base.nodes.entries) :
    Comes (fun fuel => writeMsg getFd fuel env wset li s) (Returns fun _ => True) := by
  have found := LinkedList.data_eq_some.mpr listed
  obtain ⟨status,alive⟩ := running.alive
  obtain ⟨n,cell⟩ := alive.node _ listed
  obtain ⟨e,member,same⟩ := List.mem_map.mp (running.housed.attached _ _ cell)
  obtain ⟨k,socket⟩ := alive.socket e member
  rw [same] at socket
  unfold writeMsg
  refine Comes.read found (Comes.read cell (Comes.read socket ?_))
  split
  · exact Comes.const ⟨s,rfl,trivial⟩
  · have written : Offers outside (.loop (.write li)) s := .write idle listed
    obtain ⟨s',taken,running',_⟩ := running.step noTimer (obliging.allowed written)
    have at_head : Service.step linfo (.loop (.write li)) s =
        some { s with control := cursor node n.postedIos.list.head } := by
      rw [step_idle idle]
      simp [Loop.idleStep,found,cell]
    obtain rfl := Option.some.inj (taken.symm.trans at_head)
    exact walkPosted_comes obliging noTimer within turn li node idle running'

theorem walkNodes_comes (fn : Nat → Ptr → Loop → Outcome Loop) {s : Loop} (obliging : Obliging outside)
    (noTimer : linfo.timerFn = false) (running : Running s) (idle : s.control = .idle)
    (call : ∀ {s : Loop} {li node}, s.control = .idle → (li,node) ∈ s.base.nodes.entries → ∀ fuel,
      Refines linfo outside s (fun s' t => Idles s' t ∧ s'.base.nodes = s.base.nodes) (fn fuel li s))
    (comes : ∀ {s : Loop} {li node}, Running s → s.control = .idle → (li,node) ∈ s.base.nodes.entries →
      Comes (fun fuel => fn fuel li s) (Returns fun _ => True)) :
    Comes (fun fuel => walk nextNode (fn fuel) fuel s.base.nodes.list.head s) (Returns fun s' =>
      ∃ labels, Reach (Service.step linfo) (Offers outside) s labels s' ∧ Running s' ∧ s'.control = .idle) := by
  have returns : Comes (fun fuel => walk nextNode (fn fuel) fuel s.base.nodes.list.head s)
      (Returns fun _ => True) := by
    refine (Comes.walk (fun pos t => Running t ∧ t.control = .idle ∧ t.base.nodes = s.base.nodes ∧
      ∀ li, pos = some li → ∃ node, (li,node) ∈ s.base.nodes.entries) (fun pos _ => s.base.nodes.ahead pos)
      (fun li t here => ?_) ⟨running,idle,rfl,fun _ => LinkedList.head_listed⟩).mono ?_
    · obtain ⟨running,idle,same,listed⟩ := here
      obtain ⟨node,listed⟩ := listed li rfl
      obtain ⟨after,next,later⟩ := LinkedList.next_listed listed
      have listed' : (li,node) ∈ t.base.nodes.entries := same ▸ listed
      refine ⟨after,by rw [nextNode,same,next],?_⟩
      apply (obliging.comes noTimer running (comes running idle listed') (call idle listed')).mono
      intro o holds
      obtain ⟨a,called,labels,u,_,running',_,⟨rfl,idle'⟩,kept⟩ := holds
      exact ⟨u,called,⟨running',idle',kept.trans same,fun p first => (later p first).2⟩,
        LinkedList.next_ahead listed next⟩
    · rintro o ⟨a,same,_⟩
      exact ⟨a,same,trivial⟩
  refine (obliging.comes noTimer running returns fun fuel => walkNodes_refines idle fun idle listed =>
    call idle listed fuel).mono
    fun o holds => ?_
  obtain ⟨a,same,labels,t,reach,running',_,rfl,idle'⟩ := holds
  exact ⟨t,same,labels,reach,running',idle'⟩

theorem selected_comes {s : Loop} (obliging : Obliging outside) (noTimer : linfo.timerFn = false)
    (within : PostsWithin outside most) (turn : env ∈ outside.turns) (rset wset : List Int) (running : Running s)
    (idle : s.control = .idle) (next : banoTimerGetNext s.base.timers = some head) :
    Comes (fun fuel => selected linfo getFd fuel env rset wset (head.map Prod.snd) s) (Returns fun _ => True) := by
  have offered : ∀ ready, Offers outside (.loop (.select ready
      (env.select.remaining ((head.map Prod.snd).getD ⟨0,0⟩)) (env.timeout s.base))) s :=
        fun ready => .select ready turn idle next
  have expires : ∀ ready, ∃ s', selectTimer ready
    (env.select.remaining ((head.map Prod.snd).getD ⟨0,0⟩)) (env.timeout s.base) s =
      some s' ∧ Running s' := by
    intro ready
    obtain ⟨s',taken,running',_⟩ := running.step noTimer (obliging.allowed (offered ready))
    rw [step_idle idle] at taken
    exact ⟨s',taken,running'⟩
  unfold selected
  cases updated : timerReached (env.select.remaining ((head.map Prod.snd).getD ⟨0,0⟩)) s.base with
  | none =>
    obtain ⟨s',taken,_⟩ := expires false
    rw [timerReached_stuck next updated] at taken
    cases taken
  | some reached =>
    obtain ⟨s',taken,running'⟩ := expires _
    have idle' : s'.control = .idle := (selectTimer_control taken).trans idle
    refine Comes.read updated (Comes.read taken ?_)
    split
    · refine (walkSockets_comes obliging noTimer running' idle'
        (fun idle listed => readMsg_refines turn _ idle listed)
        fun li t => readMsg_ends _ li t).next fun mid read => ?_
      obtain ⟨_,_,running'',idle''⟩ := read
      refine (walkNodes_comes _ obliging noTimer running'' idle''
        (fun idle listed fuel => writeMsg_refines turn _ idle listed)
        fun running idle listed => writeMsg_comes obliging noTimer within turn _ running idle
          listed).next fun last _ => ?_
      exact Comes.const ⟨_,rfl,trivial⟩
    · exact Comes.const ⟨_,rfl,trivial⟩

/-- The loop sleeps in a state that a run of the steps comes to. -/
def FallsAsleep (linfo : LoopInfo) (getFd : Ptr → Int) (outside : Outside) (s : Loop) : Prop :=
  ∃ labels t env rset wset nfd, Reach (Service.step linfo) (Offers outside) s labels t ∧ Running t ∧
    env ∈ outside.turns ∧
    Sleeps getFd env t rset wset nfd

theorem FallsAsleep.after {s t : Loop} (reach : Reach (Service.step linfo) (Offers outside) s labels t)
    (asleep : FallsAsleep linfo getFd outside t) : FallsAsleep linfo getFd outside s := by
  obtain ⟨labels',u,env,rset,wset,nfd,reach',running,turn,sleeps⟩ := asleep
  exact ⟨labels ++ labels',u,env,rset,wset,nfd,reach.trans reach',running,turn,sleeps⟩

theorem turn_ends {s : Loop} (obliging : Obliging outside) (noTimer : linfo.timerFn = false)
    (within : PostsWithin outside most)
    (turn : env ∈ outside.turns) (running : Running s) (idle : s.control = .idle) :
    Comes (fun fuel => EventLoop.turn linfo getFd fuel env s) fun o =>
      o = .running ∧ FallsAsleep linfo getFd outside s ∨ Returns (fun _ => True) o := by
  have added : Offers outside (.loop (.addTimer env.mallocTimer env.mallocTimerItem)) s := .addTimer turn idle
  obtain ⟨s',taken,running',_⟩ := running.step noTimer (obliging.allowed added)
  have started : Reach (Service.step linfo) (Offers outside) s
      [.loop (.addTimer env.mallocTimer env.mallocTimerItem)] s' :=
    .next .start added taken
  rw [step_idle idle] at taken
  unfold EventLoop.turn
  apply Comes.read taken
  split
  · exact Comes.const (.inr ⟨_,rfl,trivial⟩)
  have idle' := addTimer_control idle taken ‹_›
  have peeks : ∀ {s : Loop} {li socket}, s.control = .idle → (li,socket) ∈ s.base.sockets.entries →
      Refines linfo outside s (fun s' t => Idles s' t ∧
        ∀ p k, p ≠ li → (p,k) ∈ s.base.sockets.entries →
          (p,k) ∈ s'.base.sockets.entries) (peekMsg linfo env li s) :=
    fun idle listed => (peekMsg_refines turn idle listed).mono fun s'' t holds =>
      ⟨holds.1,fun p k _ there => holds.2 ▸ there⟩
  apply (walkSockets_comes obliging noTimer running' idle' peeks peekMsg_ends).next
  intro mid peeked
  obtain ⟨labels,reach,running'',idle''⟩ := peeked
  have sound : ¬Broken linfo outside mid := obliging.sound noTimer running''
  cases sets : fillSets getFd mid.base with
  | none => exact absurd (fillSets_broken sets) sound
  | some sets' =>
    obtain ⟨rset,wset,nfd⟩ := sets'
    cases next : banoTimerGetNext mid.base.timers with
    | none => exact absurd (.timers next) sound
    | some head =>
      refine Comes.read rfl (Comes.read rfl ?_)
      split
      · split
        · exact Comes.const (.inr ⟨_,rfl,trivial⟩)
        · split
          · next asleep =>
            refine Comes.const (.inl ⟨rfl,_,mid,env,rset,wset,nfd,started.trans reach,running'',turn,
              idle'',sets,?_,?_,?_⟩)
            all_goals simp only [waits,Bool.and_eq_true,Bool.not_eq_true',List.any_eq_false] at asleep
            · rw [next,Option.isNone_iff_eq_none.mp asleep.1.1]
            · exact fun fd member => by simpa using asleep.1.2 fd member
            · exact fun fd member => by simpa using asleep.2 fd member
          · exact (selected_comes obliging noTimer within turn rset wset running'' idle'' next).mono fun o => .inr
      · exact Comes.const (.inr ⟨_,rfl,trivial⟩)

/-- How a number of turns ends: asleep, or in a state that is as it was before the first. -/
def Ended (linfo : LoopInfo) (getFd : Ptr → Int) (outside : Outside) (s : Loop) : Outcome (Lib.Turn Loop Loop) → Prop
  | .running => FallsAsleep linfo getFd outside s
  | .fault => False
  | .done r => ∃ labels t, Reach (Service.step linfo) (Offers outside) s labels t ∧ Running t ∧
      TurnPost Idles Stops r t

theorem Ended.after {s t : Loop} {o : Outcome (Lib.Turn Loop Loop)}
    (reach : Reach (Service.step linfo) (Offers outside) s labels t)
    (ended : Ended linfo getFd outside t o) : Ended linfo getFd outside s o := by
  cases o with
  | running => exact FallsAsleep.after reach ended
  | fault => exact ended
  | done r =>
    obtain ⟨labels',u,reach',rest⟩ := ended
    exact ⟨labels ++ labels',u,reach.trans reach',rest⟩

theorem turn_comes {s : Loop} (obliging : Obliging outside) (noTimer : linfo.timerFn = false)
    (within : PostsWithin outside most)
    (turn : env ∈ outside.turns) (running : Running s) (idle : s.control = .idle) :
    Comes (fun fuel => EventLoop.turn linfo getFd fuel env s) (Ended linfo getFd outside s) := by
  refine ((turn_ends obliging noTimer within turn running idle).every fun fuel => turn_refines turn
    idle).mono fun o holds => ?_
  obtain ⟨⟨rfl,asleep⟩ | ⟨r,rfl,_⟩,refined⟩ := holds
  · exact asleep
  · obtain ⟨_,same,labels,t,reach,running',_,post⟩ := obliging.result noTimer running refined (by simp)
    cases same
    exact ⟨labels,t,reach,running',post⟩

theorem turns_comes {s : Loop} (obliging : Obliging outside) (noTimer : linfo.timerFn = false)
    (within : PostsWithin outside most)
    (inside : ∀ env ∈ envs, env ∈ outside.turns) (running : Running s) (idle : s.control = .idle) :
    Comes (fun fuel => turns linfo getFd fuel envs s) (Ended linfo getFd outside s) := by
  induction envs generalizing s with
  | nil => exact Comes.const ⟨[],s,.start,running,rfl,idle⟩
  | cons env envs ih =>
    refine (turn_comes obliging noTimer within (inside env List.mem_cons_self) running idle).bind id
      id fun r ended => ?_
    obtain ⟨labels,t,reach,running',post⟩ := ended
    cases r with
    | next s' =>
      obtain ⟨rfl,idle'⟩ := post
      exact (ih (fun env member => inside env (List.mem_cons_of_mem _ member)) running' idle').mono
        fun o => Ended.after reach
    | stop s' => exact Comes.const ⟨labels,t,reach,running',post⟩

/-- A traversal that fills a set with the descriptors it needs. -/
theorem visit_fills {fn : Ptr → Ptr → FdSet → Option (Int × FdSet)} {need : Ptr → Int → Prop}
    (step : ∀ it a fds r, fn it a fds = some r → r.1 = 0 ∧ fds.1 ⊆ r.2.1 ∧ fds.2 ≤ r.2.2 ∧
      ∀ fd, need a fd → fd ∈ r.2.1 ∧ fd < r.2.2)
    (visited : visit fn xs fds = some (err,fds')) :
    fds.1 ⊆ fds'.1 ∧ fds.2 ≤ fds'.2 ∧ ∀ e ∈ xs, ∀ fd, need e.2 fd → fd ∈ fds'.1 ∧ fd < fds'.2 := by
  induction xs generalizing fds with
  | nil =>
    obtain ⟨_,rfl⟩ := Prod.mk.inj (Option.some.inj visited)
    exact ⟨List.Subset.refl _,Int.le_refl _,by simp⟩
  | cons e xs ih =>
    obtain ⟨⟨ret,mid⟩,called,rest⟩ := Option.bind_eq_some_iff.mp visited
    obtain ⟨zero,more,greater,filled⟩ := step _ _ _ _ called
    simp only at zero more greater filled rest
    rw [if_neg (by simp [zero])] at rest
    obtain ⟨more',greater',others⟩ := ih rest
    refine ⟨List.Subset.trans more more',Int.le_trans greater greater',fun d member fd needed => ?_⟩
    rcases List.mem_cons.mp member with rfl | later
    · obtain ⟨there,below⟩ := filled fd needed
      exact ⟨more' there,Int.lt_of_lt_of_le below greater'⟩
    · exact others d later fd needed

theorem setFd_fills (fd : Int) (fds : FdSet) : fds.1 ⊆ (setFd fd fds).1 ∧ fds.2 ≤ (setFd fd fds).2 ∧
    fd ∈ (setFd fd fds).1 ∧ fd < (setFd fd fds).2 := by
  refine ⟨List.subset_cons_of_subset _ (List.Subset.refl _),?_,List.mem_cons_self,?_⟩ <;>
    simp only [setFd] <;> split <;> omega

/-- select is given each socket to read from, and to write to the sockets of all the nodes that have ios posted. -/
theorem fillSets_fills {s : Loop} (sets : fillSets getFd s.base = some (rset,wset,nfd)) :
    (∀ e ∈ s.base.sockets.entries, getFd e.2 ∈ rset ∧ getFd e.2 < nfd) ∧
    ∀ e ∈ s.base.nodes.entries, ∀ n, s.base.nodeMem.cell e.2 = some n → n.postedIos.entries ≠ [] →
      getFd n.socket ∈ wset ∧ getFd n.socket < nfd := by
  obtain ⟨⟨_,rset',mid⟩,read,sets⟩ := Option.bind_eq_some_iff.mp sets
  obtain ⟨⟨_,wset',nfd'⟩,write,sets⟩ := Option.bind_eq_some_iff.mp sets
  obtain ⟨rfl,rfl,rfl⟩ : rset' = rset ∧ wset' = wset ∧ nfd' = nfd := by simpa using sets
  rw [LinkedList.foreach_visit] at read write
  have sets : ∀ it socket fds r, fillRset getFd s.base it socket fds = some r → r.1 = 0 ∧
    fds.1 ⊆ r.2.1 ∧ fds.2 ≤ r.2.2 ∧
      ∀ fd, fd = getFd socket → fd ∈ r.2.1 ∧ fd < r.2.2 := by
    intro it socket fds r called
    obtain ⟨_,_,called⟩ := Option.bind_eq_some_iff.mp called
    obtain rfl := Option.some.inj called
    obtain ⟨more,greater,there,below⟩ := setFd_fills (getFd socket) fds
    exact ⟨rfl,more,greater,by rintro _ rfl; exact ⟨there,below⟩⟩
  have reads := visit_fills sets read
  have posts : ∀ it node fds r, fillWset getFd s.base it node fds = some r → r.1 = 0 ∧
    fds.1 ⊆ r.2.1 ∧ fds.2 ≤ r.2.2 ∧
      ∀ fd, (∃ n, s.base.nodeMem.cell node = some n ∧ n.postedIos.entries ≠ [] ∧ fd = getFd n.socket) →
        fd ∈ r.2.1 ∧ fd < r.2.2 := by
    intro it node fds r called
    obtain ⟨n,cell,called⟩ := Option.bind_eq_some_iff.mp called
    obtain ⟨_,_,called⟩ := Option.bind_eq_some_iff.mp called
    split at called
    · next empty =>
      obtain rfl := Option.some.inj called
      refine ⟨rfl,List.Subset.refl _,Int.le_refl _,?_⟩
      rintro _ ⟨n',cell',posted,rfl⟩
      obtain rfl := Option.some.inj (cell.symm.trans cell')
      rw [banoListIsEmpty,n.postedIos.head_eq] at empty
      cases entries : n.postedIos.entries with
      | nil => exact absurd entries posted
      | cons e rest => simp [entries] at empty
    · obtain rfl := Option.some.inj called
      obtain ⟨more,greater,there,below⟩ := setFd_fills (getFd n.socket) fds
      refine ⟨rfl,more,greater,?_⟩
      rintro _ ⟨n',cell',_,rfl⟩
      obtain rfl := Option.some.inj (cell.symm.trans cell')
      exact ⟨there,below⟩
  have writes := visit_fills posts write
  refine ⟨fun e listed => ?_,fun e listed n cell posted => writes.2.2 e listed _ ⟨n,cell,posted,rfl⟩⟩
  obtain ⟨there,below⟩ := reads.2.2 e listed _ rfl
  exact ⟨there,Int.lt_of_lt_of_le below writes.2.1⟩

/-- While the loop sleeps no io waits for a reply, and each io in
memory is posted to a node whose socket takes no write. -/
theorem asleep_unready (stocked : Stocked b) (noTimer : linfo.timerFn = false) (obliging : Obliging outside)
    (reach : Reach (Service.step linfo) (Offers outside) ⟨b,none,.idle⟩ labels t)
    (sleeps : Sleeps getFd env t rset wset nfd) :
    (∀ e ∈ t.base.sockets.entries, getFd e.2 ∈ rset ∧ getFd e.2 < nfd ∧ env.select.readable (getFd e.2) = false) ∧
    (∀ p n, t.base.nodeMem.cell p = some n → n.pendingIos.entries = []) ∧
    ∀ io r, t.base.ioMem.cell io = some r → ∃ p n li, t.base.nodeMem.cell p = some n ∧
      (li,io) ∈ n.postedIos.entries ∧
      getFd n.socket ∈ wset ∧ getFd n.socket < nfd ∧ env.select.writable (getFd n.socket) = false := by
  have running := (obliging.reach noTimer stocked.running reach).1
  obtain ⟨status,alive⟩ := running.alive
  obtain ⟨reads,writes⟩ := fillSets_fills sleeps.sets
  have noTimers : timersOf t.base.timers = [] := by
    rcases banoTimerGetNext_head alive.placed.tailed with ⟨none,_⟩ | ⟨_,_,_,_,_,_,_,next⟩
    · rw [timersOf,none]
      rfl
    · rw [sleeps.untimed] at next
      cases next
  have notPending : ∀ io p li timer, status io ≠ some (.pending p li timer) := by
    intro io p li timer mine
    have timed := (alive.placed.timers timer).mpr ⟨io,_,mine,rfl⟩
    simp [noTimers] at timed
  refine ⟨fun e listed => ?_,fun p n cell => ?_,fun io r live => ?_⟩
  · obtain ⟨there,below⟩ := reads e listed
    exact ⟨there,below,sleeps.unreadable _ there⟩
  · apply List.eq_nil_iff_forall_not_mem.mpr
    intro e listed
    obtain ⟨timer,mine⟩ := (alive.placed.pending p n cell e.1 e.2).mp listed
    exact notPending _ _ _ _ mine
  · obtain ⟨node,r0,posted,_⟩ := running.origins.record io r live
    obtain ⟨st,mine⟩ := (alive.placed.accepted io).mpr ⟨node,r0,posted⟩
    cases st with
    | posted p li =>
      obtain ⟨⟨n,cell⟩,_⟩ := alive.placed.held io _ mine
      have listed := (alive.placed.posted_only cell mine).1
      obtain ⟨e,member,rfl⟩ := List.mem_map.mp (running.housed.listed p n cell)
      obtain ⟨there,below⟩ := writes e member n cell (List.ne_nil_of_mem listed)
      exact ⟨e.2,n,li,cell,listed,there,below,sleeps.unwritable _ there⟩
    | pending p li timer => exact absurd mine (notPending io p li timer)
    | taken timer => exact absurd mine (alive.settled io timer)
    | released =>
      rw [alive.placed.held io _ mine] at live
      cases live

/-- bano_start_loop goes wrong in no turn, and comes to an end unless it sleeps; the
base it leaves can be closed, and then nothing is left in memory. -/
theorem banoStartLoop_serves (stocked : Stocked b) (noTimer : linfo.timerFn = false) (obliging : Obliging outside)
    (within : PostsWithin outside most) (getFd : Ptr → Int) :
    ∃ o least, (∀ fuel, least ≤ fuel → banoStartLoop linfo getFd fuel outside b = o) ∧ o ≠ .fault ∧
      (o = .running → FallsAsleep linfo getFd outside ⟨b,none,.idle⟩) ∧
      ∀ r, o = .done r → ∃ labels t, Reach (Service.step linfo) (Offers outside) ⟨b,none,.idle⟩ labels t ∧
        TurnPost Idles Stops r t ∧ Consistent t.base ∧
        ∃ b', banoClose t.base = some b' ∧ b'.nodeMem.Vacant ∧ b'.socketMem.Vacant ∧ b'.ioMem.Vacant := by
  have running := stocked.running
  have every : ∀ env ∈ outside.turns, env ∈ outside.turns := fun env => id
  have comes : Comes (fun fuel => banoStartLoop linfo getFd fuel outside b)
      (Ended linfo getFd outside ⟨b,none,.idle⟩) := by
    unfold banoStartLoop
    split
    · have call : ∀ {s : Loop} {li node}, s.control = .idle → (li,node) ∈ s.base.nodes.entries →
          Refines linfo outside s (fun s' t => Idles s' t ∧ s'.base.nodes = s.base.nodes) (do
            let b ← .ofOption (doNewNode linfo (outside.start li s.base) s.base li)
            .done { s with base := b }) := newNode_refines
      refine (walkNodes_comes (fun _ li s => do
        let b ← .ofOption (doNewNode linfo (outside.start li s.base) s.base li)
        .done { s with base := b }) obliging noTimer running rfl (fun idle listed _ => call idle listed)
        fun running idle listed => ?_).next fun t started => ?_
      · obtain ⟨a,same,_⟩ := obliging.result noTimer running (call idle listed) (bind_ends fun b => done_ends _)
        exact Comes.const ⟨a,same,trivial⟩
      · obtain ⟨labels,reach,running',idle⟩ := started
        exact (turns_comes obliging noTimer within every running' idle).mono fun o => Ended.after reach
    · exact turns_comes obliging noTimer within every running rfl
  obtain ⟨o,ended,least,same⟩ := comes
  refine ⟨o,least,same,?_,?_,?_⟩
  · rintro rfl
    exact ended
  · rintro rfl
    exact ended
  · rintro r rfl
    obtain ⟨labels,t,reach,running',post⟩ := ended
    exact ⟨labels,t,reach,post,running'.consistent,running'.close⟩

theorem twoSockets_stocked : Stocked twoSockets := by
  have node := @listed_append _ (.empty : Heap BanoNode) [] (by simp) { infoNode (pairInfo 1) with
    nodl := some .init } 0
  have one := @listed_append _ (.empty : Heap BanoSocket) [] (by simp) ⟨.snrf⟩ 0
  have two := listed_append one ⟨.snrf⟩ 1
  exact ⟨twoSockets_idle,node,two⟩

/-- node_fn posts a GET to the node it is told of. -/
def greetLoop : LoopInfo := ⟨false,false,true,false,0⟩

/-- A turn in which there is nothing to read. -/
def quietTurn : TurnEnv where
  mallocTimer := true
  mallocTimerItem := true
  buffered _ := []
  select := ⟨false,fun _ => false,fun _ => true,id⟩
  timeout _ := retryEnv
  read _ := ⟨.again,⟨0,0,0,0,0,0,0⟩,fun _ => bareEnv,⟨.invalid,0,0,0,0⟩,
    ⟨0,⟨0,0⟩,junkIo,0,none,true,true,true,true,true⟩⟩
  write _ _ _ := bareWrite

def quietOutside : Outside where
  start _ b := if (b.nodeMem.cell 0).isSome then [getPost] else []
  turns := [quietTurn,quietTurn]

theorem quietOutside_obliging : Obliging quietOutside := by
  have turn : ∀ env ∈ quietOutside.turns, env = quietTurn := by
    intro env member
    rcases List.mem_cons.mp member with rfl | member
    · rfl
    · exact List.mem_singleton.mp member
  constructor
  · intro li b p member
    by_cases live : (b.nodeMem.cell 0).isSome = true
    · simp only [quietOutside,live,if_true,List.mem_singleton] at member
      subst member
      exact Option.isSome_iff_exists.mp live
    · simp [quietOutside,live] at member
  all_goals
    intro env member
    obtain rfl := turn env member
  · simp [quietTurn]
  · simp [quietTurn,ReadEnv.result]
  · simp [quietTurn,FrameReady,bareEnv]
  · exact fun tv => Nat.le_refl _
  · simp [quietTurn,retryEnv,PostsTo]
  · simp [quietTurn,bareWrite,PostsTo]

theorem quietOutside_within : PostsWithin quietOutside 0 := by
  intro env member li it b posts
  rcases List.mem_cons.mp member with rfl | member
  · exact absurd rfl posts
  · obtain rfl := List.mem_singleton.mp member
    exact absurd rfl posts

theorem banoStartLoop_greets : ∃ least, ∀ fuel, least ≤ fuel →
    banoStartLoop greetLoop Int.ofNat fuel quietOutside twoSockets ≠ .fault := by
  obtain ⟨o,least,same,fine,_⟩ :=
    banoStartLoop_serves twoSockets_stocked (show greetLoop.timerFn = false from rfl) quietOutside_obliging
      quietOutside_within
      Int.ofNat
  exact ⟨least,fun fuel enough => by rw [same fuel enough]; exact fine⟩

/-- No socket takes a write. -/
def jammedTurn : TurnEnv := { quietTurn with select := ⟨false,fun _ => false,fun _ => false,id⟩ }

def jammedOutside : Outside := { quietOutside with turns := [jammedTurn] }

theorem jammedOutside_obliging : Obliging jammedOutside := by
  have quiet := quietOutside_obliging
  have turn : ∀ env ∈ jammedOutside.turns, env = jammedTurn := fun env member => List.mem_singleton.mp member
  refine ⟨quiet.start,?_,?_,?_,?_,?_,?_⟩
  all_goals
    intro env member
    obtain rfl := turn env member
  · exact quiet.peek quietTurn List.mem_cons_self
  · exact quiet.noError quietTurn List.mem_cons_self
  · exact quiet.read quietTurn List.mem_cons_self
  · exact quiet.remaining quietTurn List.mem_cons_self
  · exact quiet.timeout quietTurn List.mem_cons_self
  · exact quiet.write quietTurn List.mem_cons_self

/-- The GET that node_fn posts stays posted. -/
theorem asleep_unready_jammed : ∃ t, Service.step greetLoop (.loop (.newNode 0 (jammedOutside.start 0 twoSockets)))
    ⟨twoSockets,none,.idle⟩ = some t ∧ ∃ p n li, t.base.nodeMem.cell p = some n ∧
    (li,0) ∈ n.postedIos.entries := by
  obtain ⟨t,taken,seen⟩ : ∃ t, Service.step greetLoop (.loop (.newNode 0 (jammedOutside.start 0 twoSockets)))
      ⟨twoSockets,none,.idle⟩ = some t ∧ (t.control,fillSets Int.ofNat t.base,banoTimerGetNext t.base.timers,
        (t.base.ioMem.cell 0).isSome) = (.idle,some ([1,0],[1],2),some none,true) := Option.map_eq_some_iff.mp rfl
  simp only [Prod.mk.injEq] at seen
  obtain ⟨idle,sets,untimed,live⟩ := seen
  obtain ⟨r,live⟩ := Option.isSome_iff_exists.mp live
  have offered : Offers jammedOutside (.loop (.newNode 0 (jammedOutside.start 0 twoSockets)))
      ⟨twoSockets,none,.idle⟩ :=
    Offers.newNode (s := ⟨twoSockets,none,.idle⟩) rfl (show (0,0) ∈ twoSockets.nodes.entries by decide)
  have sleeps : Sleeps Int.ofNat jammedTurn t [1,0] [1] 2 := ⟨idle,sets,untimed,fun _ _ => rfl,fun _ _ => rfl⟩
  obtain ⟨_,_,ios⟩ := asleep_unready twoSockets_stocked rfl jammedOutside_obliging (.next .start offered taken) sleeps
  obtain ⟨p,n,li,cell,listed,_⟩ := ios 0 r live
  exact ⟨t,taken,p,n,li,cell,listed⟩

end EventLoop
end Bano
