import Bano.EventLoop
import Bano.Housed

/-! Each part of a turn does what some steps do: the traversals of the sockets and of the nodes a step
for each item, the traversal of what is posted to a node one for each io, and select one. -/
namespace Bano

open Lib

theorem runPosts_nodes {b : Base} (result : runPosts posts mid = some b') (same : mid.nodes = b.nodes) :
    b'.nodes = b.nodes :=
  (runPosts_grows result).nodes.trans same

theorem postIo_nodes (result : postIo env b node li = some b') : b'.nodes = b.nodes := by
  obtain ⟨n,io,r,_,_,_,_,⟨_,⟨q,_,rfl⟩ | ⟨⟨moved⟩⟩⟩ | ⟨_,⟨done⟩⟩⟩ := postIo_cases result
  · rfl
  · rw [moved.final]
    rfl
  · obtain ⟨posts,mid,m,posted,called,_,_,rfl⟩ := done
    have kept := runPosts_nodes called (completed_lists _ io r writtenIo).1
    exact kept

theorem doNewNode_nodes (result : doNewNode linfo posts b li = some b') : b'.nodes = b.nodes := by
  obtain ⟨node,_,result⟩ := Option.bind_eq_some_iff.mp result
  split at result
  · exact runPosts_nodes result rfl
  · obtain rfl := Option.some.inj result
    rfl

/-- A traversal whose callback returns zero, and has a result when what it looks up is there. -/
theorem visit_passes (xs : List (Ptr × α)) {fn : Ptr → α → σ → Option (Int × σ)}
    (zero : ∀ e ∈ xs, ∀ p r, fn e.1 e.2 p = some r → r.1 = 0) (p : σ) :
    (∃ q, visit fn xs p = some (0,q)) ∨ ∃ e ∈ xs, ∃ q, fn e.1 e.2 q = none := by
  induction xs generalizing p with
  | nil => exact .inl ⟨p,rfl⟩
  | cons e xs ih =>
    cases called : fn e.1 e.2 p with
    | none => exact .inr ⟨e,List.mem_cons_self,p,called⟩
    | some r =>
      obtain ⟨err,q⟩ := r
      obtain rfl : err = 0 := zero e List.mem_cons_self p _ called
      have here : visit fn (e :: xs) p = visit fn xs q := by simp [visit,called]
      rw [here]
      rcases ih (fun e member => zero e (List.mem_cons_of_mem _ member)) q with passed | ⟨e',member,stuck⟩
      · exact .inl passed
      · exact .inr ⟨e',List.mem_cons_of_mem _ member,stuck⟩

namespace EventLoop

variable {linfo : LoopInfo} {getFd : Ptr → Int} {fuel : Nat} {env : TurnEnv} {outside : Outside}

theorem nextSocket_broken {s t : Loop} (here : AtSocket (some li) s t) (stuck : nextSocket s li = none) :
    Broken linfo outside t := by
  obtain ⟨socket,listed⟩ := here.listed li rfl
  obtain ⟨after,found,_⟩ := LinkedList.next_listed listed
  rw [nextSocket,found] at stuck
  cases stuck

theorem nextNode_broken {s t : Loop} (here : AtNode (some li) s t) (stuck : nextNode s li = none) :
    Broken linfo outside t := by
  obtain ⟨node,listed⟩ := here.listed li rfl
  obtain ⟨after,found,_⟩ := LinkedList.next_listed listed
  rw [nextNode,found] at stuck
  cases stuck

/-- The traversal goes on where the callback left the other sockets in place. -/
theorem AtSocket.next {s s' t' : Loop} (listed : (li,socket) ∈ s.base.sockets.entries)
    (found : nextSocket s li = some after)
    (idles : Idles s' t') (kept : ∀ p k, p ≠ li → (p,k) ∈ s.base.sockets.entries →
      (p,k) ∈ s'.base.sockets.entries) :
    AtSocket after s' t' := by
  refine ⟨idles.1,idles.2,?_⟩
  rintro p rfl
  obtain ⟨_,same,others⟩ := LinkedList.next_listed listed
  obtain rfl := Option.some.inj (same.symm.trans found)
  obtain ⟨other,k,there⟩ := others p rfl
  exact ⟨k,kept p k other there⟩

theorem AtNode.next {s s' t' : Loop} (listed : (li,node) ∈ s.base.nodes.entries) (found : nextNode s li = some after)
    (idles : Idles s' t') (kept : s'.base.nodes = s.base.nodes) : AtNode after s' t' := by
  refine ⟨idles.1,idles.2,?_⟩
  rintro p rfl
  obtain ⟨_,same,others⟩ := LinkedList.next_listed listed
  obtain rfl := Option.some.inj (same.symm.trans found)
  obtain ⟨_,k,there⟩ := others p rfl
  exact ⟨k,kept ▸ there⟩

theorem AtSocket.head {s : Loop} (idle : s.control = .idle) : AtSocket s.base.sockets.list.head s s :=
  ⟨rfl,idle,fun _ => LinkedList.head_listed⟩

theorem AtNode.head {s : Loop} (idle : s.control = .idle) : AtNode s.base.nodes.list.head s s :=
  ⟨rfl,idle,fun _ => LinkedList.head_listed⟩

/-- A traversal of the sockets, each callback of which does what some steps do. -/
theorem walkSockets_refines {fn : Ptr → Loop → Outcome Loop} {s : Loop} (idle : s.control = .idle)
    (call : ∀ {s : Loop} {li socket}, s.control = .idle → (li,socket) ∈ s.base.sockets.entries →
      Refines linfo outside s (fun s' t => Idles s' t ∧
        ∀ p k, p ≠ li → (p,k) ∈ s.base.sockets.entries → (p,k) ∈ s'.base.sockets.entries) (fn li s)) :
    Refines linfo outside s Idles (walk nextSocket fn fuel s.base.sockets.list.head s) := by
  refine Simulated.walk AtSocket (fun s t here => ⟨here.same,here.idle⟩) (fun li s t => nextSocket_broken)
    (fun li s t after here found => ?_) (AtSocket.head idle) fuel
  obtain ⟨rfl,idle,listed⟩ := here
  obtain ⟨socket,listed⟩ := listed li rfl
  exact (call idle listed).mono fun s' t' holds => AtSocket.next listed found holds.1 holds.2

theorem walkNodes_refines {fn : Ptr → Loop → Outcome Loop} {s : Loop} (idle : s.control = .idle)
    (call : ∀ {s : Loop} {li node}, s.control = .idle → (li,node) ∈ s.base.nodes.entries →
      Refines linfo outside s (fun s' t => Idles s' t ∧ s'.base.nodes = s.base.nodes) (fn li s)) :
    Refines linfo outside s Idles (walk nextNode fn fuel s.base.nodes.list.head s) := by
  refine Simulated.walk AtNode (fun s t here => ⟨here.same,here.idle⟩) (fun li s t => nextNode_broken)
    (fun li s t after here found => ?_) (AtNode.head idle) fuel
  obtain ⟨rfl,idle,listed⟩ := here
  obtain ⟨node,listed⟩ := listed li rfl
  exact (call idle listed).mono fun s' t' holds => AtNode.next listed found holds.1 holds.2

/-- A step that leaves the loop idle, and changes the base only. -/
theorem step_refines {s : Loop} {x : Option Base} {post : Loop → Loop → Prop} (offered : Offers outside service s)
    (same : Service.step linfo service s = x.map fun b => { s with base := b })
    (holds : ∀ b, x = some b → post { s with base := b } { s with base := b }) :
    Refines linfo outside s post (do
      let b ← .ofOption x
      .done { s with base := b }) :=
  Simulated.step offered same (.step offered) fun b result => .done (holds b result)

theorem idleStep_map {s : Loop} (idle : s.control = .idle) (label : Label) (f : Base → Option Base)
    (same : Loop.idleStep linfo label s = (f s.base).bind fun b => some { s with base := b }) :
    Service.step linfo (.loop label) s = (f s.base).map fun b => { s with base := b } := by
  rw [step_idle idle,same]
  exact (Option.map_eq_bind ..).symm

theorem readMsg_refines {s : Loop} (turn : env ∈ outside.turns) (rset : List Int) (idle : s.control = .idle)
    (listed : (li,socket) ∈ s.base.sockets.entries) :
    Refines linfo outside s (fun s' t => Idles s' t ∧
      ∀ p k, p ≠ li → (p,k) ∈ s.base.sockets.entries →
        (p,k) ∈ s'.base.sockets.entries) (readMsg linfo getFd env rset li s) := by
  have found := LinkedList.data_eq_some.mpr listed
  have heard : Refines linfo outside s (fun s' t => Idles s' t ∧
      ∀ p k, p ≠ li → (p,k) ∈ s.base.sockets.entries → (p,k) ∈ s'.base.sockets.entries) (do
        let b ← .ofOption (Bano.readMsg linfo ((env.read li).env s.base) s.base li (env.read li).result)
        .done { s with base := b }) := by
    refine step_refines (.read turn idle listed)
      (idleStep_map idle _ (fun b => Bano.readMsg linfo ((env.read li).env b) b li _) rfl)
      fun b result => ⟨⟨rfl,idle⟩,fun p k other there => readMsg_sockets result there other⟩
  unfold readMsg
  rw [found,Outcome.ofOption_some,Outcome.bind_done]
  apply Simulated.read (.socket listed)
  intro k cell
  split
  · exact .done ⟨⟨rfl,idle⟩,fun _ _ _ => id⟩
  · simp only
    split
    next httpd ok =>
      have http : s.base.socketMem.cell socket = some ⟨.httpd⟩ := by
        rw [cell,← httpd]
      have same : Service.step linfo (.http li (env.read li).httpEnv (env.read li).request) s =
          (readHttpd (env.read li).httpEnv s.base li (env.read li).request).map fun b => { s with base := b } := by
        rw [Service.step,if_pos idle]
        exact (Option.map_eq_bind ..).symm
      refine step_refines (.http turn idle listed http) same fun b result => ⟨⟨rfl,idle⟩,fun p k' _ there => ?_⟩
      obtain ⟨err,handled⟩ := readHttpd_handled result
      rw [(handleHttpdMsg_sameSockets handled).sockets]
      exact there
    · exact heard

theorem writing_step (linfo : LoopInfo) (node it : Ptr) (s : Loop) (penv : PostIoEnv) :
    Service.step linfo (.loop (.postIo penv)) { s with control := .writing node it } =
      (nextPosted node s it).bind fun next => (Bano.postIo penv s.base node it).map fun b =>
        { s with base := b, control := cursor node next } := by
  simp only [Service.step,Loop.step,nextPosted,Option.bind_eq_bind,Option.bind_assoc]
  congr 1
  funext n
  congr 1
  funext next
  exact (Option.map_eq_bind ..).symm

/-- The traversal of what is posted to a node: `t` is in write_msg at the item that comes next. -/
theorem walkPosted_refines {s : Loop} (turn : env ∈ outside.turns) (idle : s.control = .idle) (li node : Ptr)
    (pos : Option Ptr) :
    Refines linfo outside { s with control := cursor node pos }
    (fun s' t => Idles s' t ∧ s'.base.nodes = s.base.nodes)
      (walk (nextPosted node) (postIo env li node) fuel pos s) := by
  refine Simulated.walk
    (fun pos s' t => t = { s' with control := cursor node pos } ∧ s'.control = .idle ∧ s'.base.nodes = s.base.nodes)
    ?_ ?_ ?_ ⟨rfl,idle,rfl⟩ fuel
  · rintro s' t ⟨rfl,idle,nodes⟩
    refine ⟨⟨?_,idle⟩,nodes⟩
    rw [cursor,← idle]
  · rintro it s' t ⟨rfl,_,_⟩ stuck
    have none : Service.step linfo (.loop (.postIo (env.write li it s'.base)))
        { s' with control := .writing node it } = none := by
      rw [writing_step,stuck,Option.bind_none]
    exact .step (Offers.postIo (s := { s' with control := .writing node it }) li turn rfl) none
  · rintro it s' t after ⟨rfl,idle,nodes⟩ found
    have same := writing_step linfo node it s' (env.write li it s'.base)
    rw [found,Option.bind_some] at same
    have offered : Offers outside (.loop (.postIo (env.write li it s'.base)))
        { s' with control := .writing node it } :=
      Offers.postIo (s := { s' with control := .writing node it }) li turn rfl
    refine Simulated.step offered same (.step offered) fun b posted => .done ⟨rfl,idle,?_⟩
    exact (postIo_nodes posted).trans nodes

theorem writeMsg_refines {s : Loop} (turn : env ∈ outside.turns) (wset : List Int) (idle : s.control = .idle)
    (listed : (li,node) ∈ s.base.nodes.entries) :
    Refines linfo outside s (fun s' t => Idles s' t ∧ s'.base.nodes = s.base.nodes)
    (writeMsg getFd fuel env wset li s) := by
  have found := LinkedList.data_eq_some.mpr listed
  unfold writeMsg
  rw [found,Outcome.ofOption_some,Outcome.bind_done]
  refine Simulated.read (.node listed) fun n cell => Simulated.read (.nodeSocket listed cell) fun k _ => ?_
  split
  · exact .done ⟨⟨rfl,idle⟩,rfl⟩
  · have taken : Service.step linfo (.loop (.write li)) s =
        some { s with control := cursor node n.postedIos.list.head } := by
      rw [step_idle idle]
      simp [Loop.idleStep,found,cell]
    exact (walkPosted_refines turn idle li node n.postedIos.list.head).after (.next .start (.write idle listed) taken)

theorem fillSets_broken (stuck : fillSets getFd s.base = none) : Broken linfo outside s := by
  have reads : ∀ e ∈ s.base.sockets.entries, ∀ p r, fillRset getFd s.base e.1 e.2 p = some r → r.1 = 0 := by
    rintro e _ p r called
    obtain ⟨_,_,called⟩ := Option.bind_eq_some_iff.mp called
    obtain rfl := Option.some.inj called
    rfl
  have writes : ∀ e ∈ s.base.nodes.entries, ∀ p r, fillWset getFd s.base e.1 e.2 p = some r → r.1 = 0 := by
    rintro e _ p r called
    obtain ⟨n,_,called⟩ := Option.bind_eq_some_iff.mp called
    obtain ⟨_,_,called⟩ := Option.bind_eq_some_iff.mp called
    split at called <;> obtain rfl := Option.some.inj called <;> rfl
  have sockets := visit_passes s.base.sockets.entries reads ([],0)
  have nodes := fun nfd => visit_passes s.base.nodes.entries writes ([],nfd)
  rcases sockets with ⟨⟨rset,nfd⟩,passed⟩ | ⟨⟨li,socket⟩,listed,p,stuck⟩
  · rcases nodes nfd with ⟨q,passed'⟩ | ⟨⟨li,node⟩,listed,p,stuck⟩
    · simp [fillSets,LinkedList.foreach_visit,passed,passed'] at stuck
    · cases cell : s.base.nodeMem.cell node with
      | none => exact .node listed cell
      | some n =>
        refine .nodeSocket listed cell ?_
        cases socket : s.base.socketMem.cell n.socket with
        | none => rfl
        | some k =>
          simp only [fillWset,cell,socket,Option.bind_eq_bind,Option.bind_some] at stuck
          split at stuck <;> cases stuck
  · refine .socket listed ?_
    cases cell : s.base.socketMem.cell socket with
    | none => rfl
    | some k => simp [fillRset,cell] at stuck

/-- What ends the loop. -/
def Stops (s t : Loop) : Prop := t = s ∧ s.control = .stopped

theorem addTimer_control {s s' : Loop} (idle : s.control = .idle)
    (taken : Loop.idleStep linfo (.addTimer mallocTimer mallocItem) s = some s') (other : s'.control ≠ .stopped) :
    s'.control = .idle := by
  unfold Loop.idleStep at taken
  simp only at taken
  split at taken
  · obtain ⟨⟨timer,timers⟩,_,taken⟩ := Option.bind_eq_some_iff.mp taken
    split at taken <;> obtain rfl := Option.some.inj taken
    · exact absurd rfl other
    · exact idle
  · obtain rfl := Option.some.inj taken
    exact idle

/-- Without a value that select has updated, there is no step of select. -/
theorem timerReached_stuck {s : Loop} (next : banoTimerGetNext s.base.timers = some head)
    (stuck : timerReached tv s.base = none) : selectTimer ready tv tenv s = none := by
  cases head with
  | none => simp [timerReached,next] at stuck
  | some head =>
    obtain ⟨timer,ms⟩ := head
    simp only [timerReached,selectTimer,next,Option.bind_eq_bind,Option.bind_some] at stuck ⊢
    cases updated : banoTimerUpdate s.base.timers timer tv with
    | none => rfl
    | some timers =>
      cases cell : timers.timers.cell timer with
      | none => simp [cell]
      | some ti => simp [updated,cell] at stuck

theorem selected_refines {s : Loop} (turn : env ∈ outside.turns) (rset wset : List Int) (idle : s.control = .idle)
    (next : banoTimerGetNext s.base.timers = some head) :
    Refines linfo outside s (TurnPost Idles Stops)
    (selected linfo getFd fuel env rset wset (head.map Prod.snd) s) := by
  have offered : ∀ ready, Offers outside (.loop (.select ready
      (env.select.remaining ((head.map Prod.snd).getD ⟨0,0⟩)) (env.timeout s.base))) s :=
        fun ready => .select ready turn idle next
  have taken : ∀ label, Service.step linfo (.loop label) s = Loop.idleStep linfo label s := step_idle idle
  unfold selected
  refine Simulated.read (fun stuck => ?_) fun reached _ => ?_
  · exact .step (offered false) ((taken _).trans (timerReached_stuck next stuck))
  · refine Simulated.step (g := fun s => s) (offered _) ((taken _).trans Option.map_id'.symm) (.step (offered _))
      fun s' selected => ?_
    have idle' : s'.control = .idle := (selectTimer_control selected).trans idle
    split
    · refine (walkSockets_refines idle' fun idle listed => readMsg_refines turn _ idle listed).bind
        fun s'' t read => ?_
      obtain ⟨rfl,idle''⟩ := read
      refine (walkNodes_refines idle'' fun idle listed => writeMsg_refines turn _ idle listed).bind
        fun last t written => ?_
      exact .done written
    · exact .done ⟨rfl,idle'⟩

/-- A turn does what some steps do. -/
theorem turn_refines {s : Loop} (turn : env ∈ outside.turns) (idle : s.control = .idle) :
    Refines linfo outside s (TurnPost Idles Stops) (EventLoop.turn linfo getFd fuel env s) := by
  have added : Offers outside (.loop (.addTimer env.mallocTimer env.mallocTimerItem)) s := .addTimer turn idle
  unfold EventLoop.turn
  refine Simulated.step (g := fun s => s) added ((step_idle idle _).trans Option.map_id'.symm) (.step added)
    fun s' taken => ?_
  split
  · exact .done ⟨rfl,‹_›⟩
  · have idle' := addTimer_control idle taken ‹_›
    have peeked : Refines linfo outside s' Idles (walk nextSocket (peekMsg linfo env) fuel
        s'.base.sockets.list.head s') :=
      walkSockets_refines idle' fun idle listed => (peekMsg_refines turn idle listed).mono fun s'' t holds =>
        ⟨holds.1,fun p k _ there => holds.2 ▸ there⟩
    apply peeked.bind
    intro _ mid peeked
    obtain ⟨rfl,idle''⟩ := peeked
    refine Simulated.read fillSets_broken fun sets _ => Simulated.read .timers fun head next => ?_
    obtain ⟨rset,wset,nfd⟩ := sets
    simp only
    split
    · split
      · have failed : Service.step linfo (.loop .selectFails) mid = some { mid with control := .stopped } :=
          step_idle idle'' _
        have stops : TurnPost Idles Stops (.stop { mid with control := .stopped })
          { mid with control := .stopped } := ⟨rfl,rfl⟩
        exact (Simulated.done stops).after (.next .start (.selectFails idle'') failed)
      · split
        · trivial
        · exact selected_refines turn rset wset idle'' next
    · exact .done ⟨rfl,idle''⟩

theorem turns_refines {s : Loop} (inside : ∀ env ∈ envs, env ∈ outside.turns) (idle : s.control = .idle) :
    Refines linfo outside s (TurnPost Idles Stops) (turns linfo getFd fuel envs s) := by
  induction envs generalizing s with
  | nil => exact .done ⟨rfl,idle⟩
  | cons env envs ih =>
    apply (turn_refines (inside env List.mem_cons_self) idle).bind
    intro r t holds
    cases r with
    | next s' =>
      obtain ⟨rfl,idle'⟩ := holds
      exact ih (fun env member => inside env (List.mem_cons_of_mem _ member)) idle'
    | stop s' => exact .done holds

theorem newNode_refines {s : Loop} (idle : s.control = .idle) (listed : (li,node) ∈ s.base.nodes.entries) :
    Refines linfo outside s (fun s' t => Idles s' t ∧ s'.base.nodes = s.base.nodes) (do
      let b ← .ofOption (doNewNode linfo (outside.start li s.base) s.base li)
      .done { s with base := b }) := by
  have offered : Offers outside (.loop (.newNode li (outside.start li s.base))) s := .newNode idle listed
  exact step_refines offered (idleStep_map idle _ (fun b => doNewNode linfo (outside.start li b) b li)
      rfl) fun b called =>
    ⟨⟨rfl,idle⟩,doNewNode_nodes called⟩

/-- bano_start_loop is a run of the steps that are offered, and goes
wrong only where that run comes to a broken state. -/
theorem banoStartLoop_run (linfo : LoopInfo) (getFd : Ptr → Int) (fuel : Nat) (outside : Outside) (b : Base) :
    Refines linfo outside ⟨b,none,.idle⟩ (TurnPost Idles Stops) (banoStartLoop linfo getFd fuel outside b) := by
  have every : ∀ env ∈ outside.turns, env ∈ outside.turns := fun env => id
  unfold banoStartLoop
  split
  · apply (walkNodes_refines rfl newNode_refines).bind
    intro s t started
    obtain ⟨rfl,idle⟩ := started
    exact turns_refines every idle
  · exact turns_refines every rfl

end EventLoop
end Bano
