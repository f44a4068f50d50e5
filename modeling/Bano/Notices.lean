import Bano.Described

/-! When the base sends a text message: only on a SET of a key that the description of its node marks, read from
a radio socket. Sockets are never added in the loop, and nodes stay listed where they were. -/
namespace Bano

open Lib

/-- A text is sent only if `may` holds, no socket is new, and the nodes are listed as they were, new ones last. -/
structure Notices (may : Prop) (b b' : Base) : Prop where
  sms : ∀ v, .sms v ∈ b'.trace → .sms v ∈ b.trace ∨ may
  nodes : b.nodes.entries <+: b'.nodes.entries
  sockets : ∀ e ∈ b'.sockets.entries, e ∈ b.sockets.entries
  socket : ∀ p k, b'.socketMem.cell p = some k → b.socketMem.cell p = some k

theorem Notices.refl (may : Prop) (b : Base) : Notices may b b :=
  ⟨fun _ => .inl,List.prefix_rfl,fun _ => id,fun _ _ => id⟩

theorem Notices.trans (one : Notices may a b) (other : Notices may b c) : Notices may a c := by
  refine ⟨fun v sent => ?_,one.nodes.trans other.nodes,fun e listed => one.sockets e (other.sockets e listed),
    fun p k cell => one.socket p k (other.socket p k cell)⟩
  exact (other.sms v sent).elim (one.sms v) .inr

theorem Notices.mono (notices : Notices may b b') (more : may → may') : Notices may' b b' :=
  ⟨fun v sent => (notices.sms v sent).imp id more,notices.nodes,notices.sockets,notices.socket⟩

/-- Events that are no texts. -/
theorem notices_same {b b' : Base} (trace : b'.trace = b.trace ++ es) (silent : ∀ v, .sms v ∉ es)
    (nodes : b'.nodes = b.nodes)
    (sockets : b'.sockets = b.sockets) (socketMem : b'.socketMem = b.socketMem) : Notices may b b' := by
  refine ⟨fun v sent => ?_,by rw [nodes],fun e listed => sockets ▸ listed,fun p k cell => socketMem ▸ cell⟩
  rw [trace] at sent
  exact (List.mem_append.mp sent).elim .inl fun new => absurd new (silent v)

/-- One event that is no text. -/
theorem notices_event {b b' : Base} (e : Event) (silent : ∀ v, .sms v ≠ e) (trace : b'.trace = b.trace ++ [e])
    (nodes : b'.nodes = b.nodes) (sockets : b'.sockets = b.sockets) (socketMem : b'.socketMem = b.socketMem) :
    Notices may b b' :=
  notices_same trace (fun v sent => silent v (List.mem_singleton.mp sent)) nodes sockets socketMem

/-- A step that tells nothing. -/
theorem notices_quiet {b b' : Base} (trace : b'.trace = b.trace) (nodes : b'.nodes = b.nodes)
    (sockets : b'.sockets = b.sockets)
    (socketMem : b'.socketMem = b.socketMem) : Notices may b b' :=
  notices_same (trace.trans (List.append_nil _).symm) (by simp) nodes sockets socketMem

theorem Grows.notices (grows : Grows b b') : Notices may b b' := by
  obtain ⟨es,trace,posted⟩ := grows.trace
  refine notices_same trace (fun v sent => ?_) grows.nodes grows.sockets grows.socketMem
  obtain ⟨_,_,_,same,_⟩ := posted _ sent
  exact nomatch same

theorem completed_notices (b : Base) (io : Ptr) (r : BanoIo) (f : BanoIo → BanoIo) :
    Notices may b (completed b io r f) := by
  unfold completed
  split
  · exact notices_event (.completed io (f r).complErr (f r).complVal) (by simp) rfl rfl rfl rfl
  · exact .refl _ _

theorem released_notices (b : Base) (io : Ptr) : Notices may b (released b io) :=
  notices_event (.released io) (by simp) rfl rfl rfl rfl

theorem Released.notices (gone : Released b b' nodes ios) : Notices may b b' := by
  have trace : b'.trace = b.trace ++ ios.map .released := by rw [gone.same]
  exact notices_same trace (by simp) (by rw [gone.same]) (by rw [gone.same]) (by rw [gone.same])

theorem runPosts_notices (result : runPosts posts b = some b') : Notices may b b' := (runPosts_grows result).notices

/-- What a callback does after an event that is no text. -/
theorem called_notices (silent : ∀ v, .sms v ∉ es)
    (result : runPosts posts { b with trace := b.trace ++ es } = some b') :
    Notices may b b' := by
  have told : Notices may b { b with trace := b.trace ++ es } := notices_same rfl silent rfl rfl rfl
  exact told.trans (runPosts_notices result)

theorem addPair_notices {b : Base} (cell : b.nodeMem.cell node = some n) (env : FrameEnv) (msg : BanoMsg) :
    Notices (notifies n msg = true) b (addPair env b node n msg) := by
  have added : addPair env b node n msg = _ := addPair_eq cell
  rw [added]
  refine ⟨fun v sent => ?_,List.prefix_rfl,fun _ => id,fun _ _ => id⟩
  rcases List.mem_append.mp sent with before | now
  · exact .inl before
  · by_cases sends : notifies n msg = true
    · exact .inr sends
    · simp [sends] at now

theorem answer_notices (answer : Answer b node n msg io b') : Notices may b b' := by
  have left : Notices may b ((b.setNode node { n with pendingIos := answer.pending }).emit (.answered io msg)) :=
    notices_event (.answered io msg) (by simp) rfl rfl rfl rfl
  have called : Notices may b answer.mid :=
    (left.trans (completed_notices _ _ _ _)).trans (runPosts_notices answer.called)
  have stopped : Notices may answer.mid { answer.mid with timers := answer.timers } := notices_quiet rfl rfl rfl rfl
  rw [(banoFreeIo_cases answer.final).1]
  exact (called.trans stopped).trans (released_notices _ io)

/-- The key of the message is marked in the description of the node. -/
def Marked (b : Base) (msg : BanoMsg) (node : Ptr) : Prop := ∃ n, b.nodeMem.cell node = some n ∧ notifies n msg = true

theorem dispatch_notices (result : dispatch linfo env b msg node = some b') : Notices (Marked b msg node) b b' := by
  rcases dispatch_cases result with ⟨_,handled⟩ | ⟨_,posts,es,called,shape⟩
  · obtain ⟨n,cell,cases⟩ := handleSetMsg_cases handled
    have added := (addPair_notices cell env msg).mono fun sends => (⟨n,cell,sends⟩ : Marked b msg node)
    rcases cases with ⟨posts,es,called,shape,_⟩ | ⟨_,⟨_,rfl⟩ | ⟨m,io,_,⟨answer⟩⟩⟩
    · refine added.trans (called_notices (fun v sent => ?_) called)
      rcases shape with rfl | rfl <;> simp at sent
    · exact added
    · exact added.trans (answer_notices answer)
  · refine called_notices (fun v sent => ?_) called
    rcases shape with rfl | ⟨_,rfl⟩ <;> simp at sent

/-- A look-up of the sender leads to a node that has the key marked. -/
def Notified (b : Base) (msg : BanoMsg) : Prop :=
  ∃ node, findNodeByAddr b msg.saddr = some (some node) ∧ Marked b msg node

theorem handleBanoMsg_notices (result : handleBanoMsg linfo env b socket msg = some (err,b')) :
    Notices (Notified b (decMsg b msg)) b b' := by
  rcases handleBanoMsg_cases result with
    rfl | ⟨node,search,handled⟩ | ⟨nodes,mid,posts,es,entries,called,shape,handled⟩
  · exact .refl _ _
  · exact (dispatch_notices handled).mono fun marked => ⟨node,search,marked⟩
  · have listed : Notices (Notified b (decMsg b msg)) b (registered b nodes (decMsg b msg).saddr socket) :=
      ⟨fun _ => .inl,entries ▸ List.prefix_append _ _,fun _ => id,fun _ _ => id⟩
    have silent : ∀ v, .sms v ∉ es := by
      intro v sent
      rcases shape with rfl | rfl <;> simp at sent
    have greeted : Notices (Notified b (decMsg b msg)) (registered b nodes (decMsg b msg).saddr socket) mid :=
      called_notices silent called
    refine (listed.trans greeted).trans ((dispatch_notices handled).mono fun ⟨n,cell,sends⟩ => ?_)
    -- a node that is new has no description
    have fresh : ({ registered b nodes (decMsg b msg).saddr socket with trace := b.trace ++ es } : Base).nodeMem.cell
        b.nodeMem.next = some (banoNodeAlloc (decMsg b msg).saddr socket) := Heap.alloc_cell_next _ _
    obtain ⟨n',cell',same,_⟩ := (runPosts_grows called).node _ _ fresh
    obtain rfl := Option.some.inj (cell.symm.trans cell')
    rw [same] at sends
    simp [notifies,banoNodeAlloc] at sends

theorem readMsg_notices (result : readMsg linfo env b li (.msg msg) = some b') :
    Notices (∃ socket, snrfFrame b li env msg = some (socket,env,msg) ∧ Notified b (decMsg b msg)) b b' := by
  obtain ⟨socket,listed,result⟩ := Option.bind_eq_some_iff.mp result
  obtain ⟨k,live,result⟩ := Option.bind_eq_some_iff.mp result
  simp only at result
  split at result
  · next snrf =>
    obtain ⟨⟨err,mid⟩,handled,same⟩ := Option.bind_eq_some_iff.mp result
    obtain rfl := Option.some.inj same
    exact (handleBanoMsg_notices handled).mono fun notified => ⟨socket,by simp [snrfFrame,listed,live,snrf],notified⟩
  · exact Option.some.inj result ▸ .refl _ _

theorem freeNodeItems_notices (result : freeNodeItems es b = some b') : Notices may b b' := by
  obtain ⟨_,gone,_⟩ := freeNodeItems_released result
  exact gone.notices

theorem banoSocketFree_notices (result : banoSocketFree b socket = some b') : Notices may b b' := by
  obtain ⟨mid,nodes,result⟩ := Option.bind_eq_some_iff.mp result
  obtain ⟨socketMem,freed,rfl⟩ := bind_some.mp result
  obtain ⟨_,rfl⟩ := Heap.free_eq_some.mp freed
  have gone : Notices may mid { mid with socketMem := mid.socketMem.erase socket } := by
    refine ⟨fun _ => .inl,List.prefix_rfl,fun _ => id,fun p k cell => ?_⟩
    by_cases here : p = socket
    · subst here
      simp at cell
    · simpa [here] using cell
  exact (freeNodeItems_notices nodes).trans gone

theorem postIo_notices (result : postIo env b node li = some b') : Notices may b b' := by
  obtain ⟨n,io,r,_,_,_,_,⟨_,⟨q,_,rfl⟩ | ⟨⟨moved⟩⟩⟩ |
    ⟨_,⟨⟨posts,mid,m,posted,called,_,_,rfl⟩⟩⟩⟩ := postIo_cases result
  · exact notices_event (.written node io n.addr (encMsg b n r.msg)) (by simp) rfl rfl rfl rfl
  · rw [moved.final]
    exact notices_event (.written node io n.addr (encMsg b n r.msg)) (by simp) rfl rfl rfl rfl
  · have written : Notices may b (b.emit (.written node io n.addr (encMsg b n r.msg))) :=
      notices_event _ (by simp) rfl rfl rfl rfl
    have completed := (written.trans (completed_notices _ io r writtenIo)).trans (runPosts_notices called)
    have ended : Notices may (released mid io) ((released mid io).setNode node { m with postedIos := posted }) :=
      notices_quiet rfl rfl rfl rfl
    exact (completed.trans (released_notices mid io)).trans ended

theorem expirePending_notices (result : expirePending env b t = some b') : Notices may b b' := by
  obtain ⟨⟨node,it,n,io,r,mid,n',pending,timers,_,_,_,ioCell,expired,_,_,_,rfl⟩⟩ := expirePending_cases result
  have cell : (b.setIo io (expiring r)).ioMem.cell io = some (expiring r) := by simp [Base.setIo,ioCell]
  have counted : Notices may b (b.setIo io (expiring r)) := notices_quiet rfl rfl rfl rfl
  have lapsed : Notices may (b.setIo io (expiring r)) mid := by
    rcases expireIo_cases cell expired with ⟨_,posts,c,called,rfl⟩ | ⟨_,dest,d,posted,_,_,_,rfl⟩
    · exact ((completed_notices _ _ _ _).trans (runPosts_notices called)).trans (released_notices c _)
    · exact notices_quiet rfl rfl rfl rfl
  have ended : Notices may mid { mid.setNode node { n' with pendingIos := pending } with timers := timers } :=
    notices_quiet rfl rfl rfl rfl
  exact (counted.trans lapsed).trans ended

theorem selectTimer_notices (result : selectTimer ready tv env s = some s') : Notices may s.base s'.base := by
  rcases selectTimer_cases result with rfl | ⟨t,_,timers,_,_,rfl | ⟨_,b,expired,rfl⟩ | ⟨_,b,q,called,_,rfl⟩⟩
  · exact .refl _ _
  · exact notices_quiet rfl rfl rfl rfl
  · have updated : Notices may s.base { s.base with timers := timers } := notices_quiet rfl rfl rfl rfl
    exact updated.trans (expirePending_notices expired)
  · have updated : Notices may s.base (Base.emit { s.base with timers := timers } .timerFn) :=
      notices_event .timerFn (by simp) rfl rfl rfl rfl
    have stopped : Notices may b { b with timers := q } := notices_quiet rfl rfl rfl rfl
    exact (updated.trans (runPosts_notices called)).trans stopped

/-- The frame that a step reads may be notified. -/
def Label.Notifies (label : Label) (s : Loop) : Prop :=
  ∃ socket env msg, label.frame s = some (socket,env,msg) ∧ Notified s.base (decMsg s.base msg)

/-- The step is bano_close. -/
def Shuts (s s' : Loop) : Prop := s'.control = .closed ∧ banoClose s.base = some s'.base

theorem idleStep_notices (taken : Loop.idleStep linfo label s = some s') :
    Notices (label.Notifies s) s.base s'.base ∨ Shuts s s' := by
  cases label with
  | newNode li posts =>
    obtain ⟨b,called,rfl⟩ := bind_some.mp taken
    obtain ⟨node,_,called⟩ := Option.bind_eq_some_iff.mp called
    split at called
    · have told : Notices (Label.Notifies (.newNode li posts) s) s.base (s.base.emit (.newNode node)) :=
        notices_event _ (by simp) rfl rfl rfl rfl
      exact .inl (told.trans (runPosts_notices called))
    · exact .inl (Option.some.inj called ▸ .refl _ _)
  | post p =>
    obtain ⟨b,posted,rfl⟩ := bind_some.mp taken
    exact .inl (postNew_grows posted).notices
  | addTimer mallocTimer mallocItem =>
    simp only [Loop.idleStep] at taken
    split at taken
    · obtain ⟨⟨timer,timers⟩,_,taken⟩ := Option.bind_eq_some_iff.mp taken
      simp only at taken
      split at taken <;> exact .inl (Option.some.inj taken ▸ notices_quiet rfl rfl rfl rfl)
    · exact .inl (Option.some.inj taken ▸ .refl _ _)
  | peek li env msg =>
    obtain ⟨b,handled,rfl⟩ := bind_some.mp taken
    refine .inl ((readMsg_notices handled).mono ?_)
    rintro ⟨socket,frame,notified⟩
    exact ⟨socket,env,msg,frame,notified⟩
  | read li env outcome =>
    obtain ⟨b,handled,rfl⟩ := bind_some.mp taken
    cases outcome with
    | again =>
      obtain ⟨_,_,handled⟩ := Option.bind_eq_some_iff.mp handled
      obtain ⟨_,_,handled⟩ := Option.bind_eq_some_iff.mp handled
      exact .inl (Option.some.inj handled ▸ Notices.refl _ _)
    | error =>
      obtain ⟨_,_,handled⟩ := Option.bind_eq_some_iff.mp handled
      obtain ⟨_,_,handled⟩ := Option.bind_eq_some_iff.mp handled
      obtain ⟨mid,freed,handled⟩ := Option.bind_eq_some_iff.mp handled
      obtain ⟨sockets,removed,rfl⟩ := bind_some.mp handled
      have shorter : Notices (Label.Notifies (.read li env .error) s) mid { mid with sockets := sockets } :=
        ⟨fun _ => .inl,List.prefix_rfl,fun e listed => mem_of_del removed listed,fun _ _ => id⟩
      exact .inl ((banoSocketFree_notices freed).trans shorter)
    | msg msg =>
      refine .inl ((readMsg_notices handled).mono ?_)
      rintro ⟨socket,frame,notified⟩
      exact ⟨socket,env,msg,frame,notified⟩
  | write li =>
    obtain ⟨node,_,taken⟩ := Option.bind_eq_some_iff.mp taken
    obtain ⟨n,_,rfl⟩ := bind_some.mp taken
    exact .inl (Notices.refl _ _)
  | postIo env => simp [Loop.idleStep] at taken
  | select ready tv env => exact .inl (selectTimer_notices taken)
  | selectFails => exact .inl (Option.some.inj taken ▸ Notices.refl _ _)
  | close =>
    obtain ⟨b,closed,rfl⟩ := bind_some.mp taken
    exact .inr ⟨rfl,closed⟩

theorem step_notices (taken : Loop.step linfo label s = some s') :
    Notices (label.Notifies s) s.base s'.base ∨ Shuts s s' := by
  unfold Loop.step at taken
  split at taken
  · exact idleStep_notices taken
  · obtain ⟨n,_,taken⟩ := Option.bind_eq_some_iff.mp taken
    obtain ⟨next,_,taken⟩ := Option.bind_eq_some_iff.mp taken
    obtain ⟨b,written,rfl⟩ := bind_some.mp taken
    exact .inl (postIo_notices written)
  · obtain ⟨b,closed,rfl⟩ := bind_some.mp taken
    exact .inr ⟨rfl,closed⟩
  · exact nomatch taken

def Service.Notifies : Service → Loop → Prop
  | .loop label, s => label.Notifies s
  | .http .., _ => False

theorem handleHttpdMsg_notices (result : handleHttpdMsg env b msg = some (err,b')) : Notices may b b' := by
  by_cases rst : msg.op = .rst
  · rcases handleHttpdMsg_rst rst result with ⟨_,rfl⟩ | ⟨node,n,_,_,rfl⟩
    · exact .refl _ _
    · exact notices_quiet rfl rfl rfl rfl
  · rcases handleHttpdMsg_posts rst result with rfl | ⟨p,posted⟩
    · exact .refl _ _
    · exact (postNew_grows posted).notices

theorem service_notices (taken : Service.step linfo service s = some s') :
    Notices (service.Notifies s) s.base s'.base ∨ Shuts s s' := by
  cases service with
  | loop label => exact step_notices taken
  | http li env msg =>
    obtain ⟨_,b,handled,rfl⟩ := service_http taken
    exact .inl (handleHttpdMsg_notices handled)

theorem freeSocketItems_notices (result : freeSocketItems es b = some b') : Notices may b b' := by
  induction es generalizing b with
  | nil => exact Option.some.inj result ▸ .refl _ _
  | cons e es ih =>
    obtain ⟨mid,freed,rest⟩ := Option.bind_eq_some_iff.mp result
    exact (banoSocketFree_notices freed).trans (ih rest)

theorem banoClose_texts (result : banoClose b = some b') (sent : .sms v ∈ b'.trace) : .sms v ∈ b.trace := by
  obtain ⟨timers,_,result⟩ := Option.bind_eq_some_iff.mp result
  obtain ⟨mid,nodes,result⟩ := Option.bind_eq_some_iff.mp result
  obtain ⟨mid',sockets,rfl⟩ := bind_some.mp result
  have freed : Notices False { b with timers := timers } mid := freeNodeItems_notices nodes
  have released : Notices False { mid with nodes := .empty } mid' := freeSocketItems_notices sockets
  exact (freed.sms v ((released.sms v sent).resolve_right id)).resolve_right id

/-- What a step sends it was notified of. -/
theorem service_texts (taken : Service.step linfo service s = some s') (sent : .sms v ∈ s'.base.trace) :
    .sms v ∈ s.base.trace ∨ service.Notifies s := by
  rcases service_notices taken with notices | ⟨_,closed⟩
  · exact notices.sms v sent
  · exact .inl (banoClose_texts closed sent)

end Bano
