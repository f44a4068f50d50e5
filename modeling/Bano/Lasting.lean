import Bano.Faces
import Bano.LifeCycle

/-! Nodes last while no socket is lost, and with them what is written for their ios. -/
namespace Bano

open Lib

/-- No node is released. -/
def Lasting (b b' : Base) : Prop := ∀ p n, b.nodeMem.cell p = some n → ∃ n', b'.nodeMem.cell p = some n'

theorem Lasting.refl (b : Base) : Lasting b b := fun _ n cell => ⟨n,cell⟩

theorem Lasting.trans (one : Lasting a b) (other : Lasting b c) : Lasting a c := by
  intro p n cell
  obtain ⟨n',cell'⟩ := one p n cell
  exact other p n' cell'

theorem lasting_same {b b' : Base} (same : b'.nodeMem = b.nodeMem) : Lasting b b' := fun _ n cell => ⟨n,same ▸ cell⟩

theorem lasting_modify {b b' : Base} (same : b'.nodeMem = b.nodeMem.modify node f) : Lasting b b' := by
  intro p n cell
  rw [same]
  by_cases here : p = node
  · subst here
    exact ⟨f n,by simp [cell]⟩
  · exact ⟨n,by simp [here,cell]⟩

/-- A callback, after a change that is not to the nodes. -/
theorem runPosts_lasting {mid : Base} (result : runPosts posts mid = some b') (same : mid.nodeMem = b.nodeMem) :
    Lasting b b' := (lasting_same same).trans (runPosts_grows result).live

theorem postIo_lasting (result : postIo env b node li = some b') : Lasting b b' := by
  obtain ⟨n,io,r,_,_,_,_,⟨_,⟨q,_,rfl⟩ | ⟨⟨moved⟩⟩⟩ | ⟨_,⟨done⟩⟩⟩ := postIo_cases result
  · exact lasting_modify rfl
  · rw [moved.final]
    exact lasting_modify rfl
  · obtain ⟨posts,mid,m,posted,called,_,_,rfl⟩ := done
    have ended : Lasting mid ((released mid io).setNode node { m with postedIos := posted }) := lasting_modify rfl
    exact (runPosts_lasting called (completed_nodeMem _ io r writtenIo)).trans ended

theorem expirePending_lasting (result : expirePending env b t = some b') : Lasting b b' := by
  obtain ⟨⟨node,it,n,io,r,mid,n',pending,timers,_,_,_,ioCell,expired,_,_,_,rfl⟩⟩ := expirePending_cases result
  have cell : (b.setIo io (expiring r)).ioMem.cell io = some (expiring r) := by simp [Base.setIo,ioCell]
  have lapsed : Lasting (b.setIo io (expiring r)) mid := by
    rcases expireIo_cases cell expired with ⟨_,posts,mid',called,rfl⟩ | ⟨_,dest,d,posted,_,_,_,rfl⟩
    · exact (runPosts_lasting called (completed_nodeMem _ _ _ _)).trans (lasting_same rfl)
    · exact lasting_modify rfl
  have ended : Lasting mid { mid.setNode node { n' with pendingIos := pending } with timers := timers } :=
    lasting_modify rfl
  exact lapsed.trans ended

theorem selectTimer_lasting (result : selectTimer ready tv env s = some s') : Lasting s.base s'.base := by
  rcases selectTimer_cases result with rfl | ⟨t,_,timers,_,_,rfl | ⟨_,b,expired,rfl⟩ | ⟨_,b,q,called,_,rfl⟩⟩
  · exact .refl _
  · exact lasting_same rfl
  · have kept := expirePending_lasting expired
    exact kept
  · have kept := runPosts_lasting (b := s.base) called rfl
    exact kept

theorem addPair_lasting {b : Base} (cell : b.nodeMem.cell node = some n) (env : FrameEnv) (msg : BanoMsg) :
    Lasting b (addPair env b node n msg) := by
  rw [addPair_eq cell]
  exact lasting_modify rfl

theorem dispatch_lasting (result : dispatch linfo env b msg node = some b') : Lasting b b' := by
  rcases dispatch_cases result with ⟨_,handled⟩ | ⟨_,posts,es,called,_⟩
  · obtain ⟨n,cell,cases⟩ := handleSetMsg_cases handled
    have added := addPair_lasting cell env msg
    rcases cases with ⟨posts,es,called,_⟩ | ⟨_,⟨_,rfl⟩ | ⟨m,io,_,⟨answer⟩⟩⟩
    · exact added.trans (runPosts_lasting called rfl)
    · exact added
    · have left : Lasting (addPair env b node n msg) (answered (addPair env b node n msg) node m answer.pending
          msg io answer.r) :=
        lasting_modify (completed_nodeMem _ io answer.r (answerIo msg))
      have final := congrArg Base.nodeMem (banoFreeIo_cases answer.final).1
      exact ((added.trans left).trans (runPosts_lasting answer.called rfl)).trans (lasting_same final)
  · exact runPosts_lasting called rfl

theorem handleBanoMsg_lasting (result : handleBanoMsg linfo env b socket msg = some (err,b')) : Lasting b b' := by
  rcases handleBanoMsg_cases result with rfl | ⟨node,_,handled⟩ | ⟨nodes,mid,posts,es,_,called,_,handled⟩
  · exact .refl _
  · exact dispatch_lasting handled
  · have added : Lasting b (registered b nodes (decMsg b msg).saddr socket) := fun p n cell =>
      ⟨n,Heap.alloc_cell_live cell _⟩
    exact (added.trans (runPosts_lasting called rfl)).trans (dispatch_lasting handled)

/-- A message that is not a frame changes nothing. -/
theorem readMsg_same (frame : snrfFrame b li env msg = none)
    (result : readMsg linfo env b li (.msg msg) = some b') : b' = b := by
  obtain ⟨socket,listed,result⟩ := Option.bind_eq_some_iff.mp result
  obtain ⟨k,live,result⟩ := Option.bind_eq_some_iff.mp result
  simp only at result
  split at result
  · next snrf => simp [snrfFrame,listed,live,snrf] at frame
  · exact (Option.some.inj result).symm

theorem idleStep_lasting (allowed : label.Allowed s) (frame : label.frame s = none)
    (taken : Loop.idleStep linfo label s = some s') : Lasting s.base s'.base := by
  cases label with
  | newNode li posts =>
    obtain ⟨b,called,rfl⟩ := bind_some.mp taken
    obtain ⟨node,_,called⟩ := Option.bind_eq_some_iff.mp called
    split at called
    · exact runPosts_lasting called rfl
    · exact Option.some.inj called ▸ .refl _
  | post p =>
    obtain ⟨b,posted,rfl⟩ := bind_some.mp taken
    exact (postNew_grows posted).live
  | addTimer mallocTimer mallocItem =>
    simp only [Loop.idleStep] at taken
    split at taken
    · obtain ⟨⟨timer,timers⟩,_,taken⟩ := Option.bind_eq_some_iff.mp taken
      simp only at taken
      split at taken <;> exact Option.some.inj taken ▸ lasting_same rfl
    · exact Option.some.inj taken ▸ .refl _
  | peek li env msg =>
    obtain ⟨b,handled,rfl⟩ := bind_some.mp taken
    exact lasting_same (congrArg Base.nodeMem (readMsg_same frame handled))
  | read li env outcome =>
    obtain ⟨b,handled,rfl⟩ := bind_some.mp taken
    cases outcome with
    | again =>
      obtain ⟨_,_,handled⟩ := Option.bind_eq_some_iff.mp handled
      obtain ⟨_,_,handled⟩ := Option.bind_eq_some_iff.mp handled
      exact Option.some.inj handled ▸ Lasting.refl _
    | error => exact allowed.2.2.elim
    | msg msg => exact lasting_same (congrArg Base.nodeMem (readMsg_same frame handled))
  | write li =>
    obtain ⟨node,_,taken⟩ := Option.bind_eq_some_iff.mp taken
    obtain ⟨n,_,rfl⟩ := bind_some.mp taken
    exact Lasting.refl _
  | postIo env => cases taken
  | select ready tv env => exact selectTimer_lasting taken
  | selectFails => exact Option.some.inj taken ▸ Lasting.refl _
  | close => exact allowed.elim

theorem step_lasting (allowed : label.Allowed s) (taken : Loop.step linfo label s = some s') :
    Lasting s.base s'.base := by
  cases frame : label.frame s with
  | some heard =>
    obtain ⟨ret,handled⟩ := step_frame frame taken
    exact handleBanoMsg_lasting handled
  | none =>
  unfold Loop.step at taken
  split at taken
  · exact idleStep_lasting allowed frame taken
  · obtain ⟨n,_,taken⟩ := Option.bind_eq_some_iff.mp taken
    obtain ⟨next,_,taken⟩ := Option.bind_eq_some_iff.mp taken
    obtain ⟨b,written,rfl⟩ := bind_some.mp taken
    exact postIo_lasting written
  · exact allowed.elim
  · exact nomatch taken

/-- What is written for a node does not change. -/
theorem Calm.wears (calm : Calm b b') (cell : b.nodeMem.cell p = some n) (cell' : b'.nodeMem.cell p = some n') :
    n'.addr = n.addr ∧ n'.flags = n.flags := by
  obtain ⟨m,live,same⟩ := calm.face p n' cell'
  obtain rfl := Option.some.inj (cell.symm.trans live)
  obtain ⟨flags,addr,_⟩ := face_fields same
  exact ⟨addr,flags⟩

theorem addPair_wears {b : Base} (here : b.nodeMem.cell node = some m) (calm : Calm (addPair env b node m msg) b')
    (cell : b.nodeMem.cell p = some n) (cell' : b'.nodeMem.cell p = some n') : n'.addr = n.addr ∧
    n'.flags = n.flags := by
  by_cases same : p = node
  · subst same
    obtain rfl := Option.some.inj (here.symm.trans cell)
    have stored : (addPair env b p m msg).nodeMem.cell p = some { m with keyvalPairs := storedPairs env m msg } := by
      rw [addPair_nodeMem here,if_pos rfl]
    have kept := calm.wears stored cell'
    exact kept
  · have other : (addPair env b node m msg).nodeMem.cell p = some n := by rw [addPair_nodeMem here,if_neg same,cell]
    exact calm.wears other cell'

theorem Heard.wears (heard : Heard env socket m b b') (cell : b.nodeMem.cell p = some n)
    (cell' : b'.nodeMem.cell p = some n') : n'.addr = n.addr ∧ n'.flags = n.flags := by
  cases heard with
  | other calm _ => exact calm.wears cell cell'
  | known _ here _ calm => exact addPair_wears here calm cell cell'
  | @new nodes _ _ _ unset set =>
    have live : (registered b nodes m.saddr socket).nodeMem.cell p = some n := Heap.alloc_cell_live cell _
    by_cases op : m.op = msgOpSet
    · exact addPair_wears (Heap.alloc_cell_next _ _) (set op) live cell'
    · exact (unset op).wears live cell'

theorem Heard.cipher (heard : Heard env socket m b b') : b'.cipher = b.cipher := by
  cases heard with
  | other calm _ => exact calm.cipher
  | known _ here _ calm =>
    have same : addPair env b _ _ m = _ := addPair_eq here
    rw [calm.cipher,same]
    rfl
  | @new nodes _ _ _ unset set =>
    by_cases op : m.op = msgOpSet
    · have here : (registered b nodes m.saddr socket).nodeMem.cell b.nodeMem.next =
          some (banoNodeAlloc m.saddr socket) :=
        Heap.alloc_cell_next _ _
      have same : addPair env (registered b nodes m.saddr socket) _ _ m = _ := addPair_eq here
      rw [(set op).cipher,same]
      rfl
    · exact (unset op).cipher

theorem step_wears (taken : Loop.step linfo label s = some s') (cell : s.base.nodeMem.cell p = some n)
    (cell' : s'.base.nodeMem.cell p = some n') : n'.addr = n.addr ∧ n'.flags = n.flags := by
  rcases step_heard taken with ⟨_,calm⟩ | ⟨_,_,_,_,heard⟩
  · exact calm.wears cell cell'
  · exact heard.wears cell cell'

theorem step_cipher (taken : Loop.step linfo label s = some s') : s'.base.cipher = s.base.cipher := by
  rcases step_heard taken with ⟨_,calm⟩ | ⟨_,_,_,_,heard⟩
  · exact calm.cipher
  · exact heard.cipher

theorem encMsg_same {b b' : Base} (cipher : b'.cipher = b.cipher) (flags : n'.flags = n.flags) (m : BanoMsg) :
    encMsg b' n' m = encMsg b n m := by
  unfold encMsg BanoNode.ciphers
  rw [cipher,flags]

end Bano
