import Bano.Http

/-! Which sockets a base lists. Only the failure of a socket takes one away, and it takes away that socket alone. -/
namespace Bano

open Lib

structure SameSockets (b b' : Base) : Prop where
  sockets : b'.sockets = b.sockets
  socketMem : b'.socketMem = b.socketMem

theorem SameSockets.refl (b : Base) : SameSockets b b := ⟨rfl,rfl⟩

theorem SameSockets.trans (one : SameSockets a b) (other : SameSockets b c) : SameSockets a c :=
  ⟨other.sockets.trans one.sockets,other.socketMem.trans one.socketMem⟩

theorem Grows.sameSockets (grows : Grows b b') : SameSockets b b' := ⟨grows.sockets,grows.socketMem⟩

/-- A callback, after a change that is not to the sockets. -/
theorem runPosts_sameSockets {mid : Base} (result : runPosts posts mid = some b') (same : SameSockets b mid) :
    SameSockets b b' := same.trans (runPosts_grows result).sameSockets

theorem completed_sameSockets (b : Base) (io : Ptr) (r : BanoIo) (f : BanoIo → BanoIo) :
    SameSockets b (completed b io r f) := by
  unfold completed
  split <;> exact ⟨rfl,rfl⟩

theorem postIo_sameSockets (result : postIo env b node li = some b') : SameSockets b b' := by
  obtain ⟨n,io,r,_,_,_,_,⟨_,⟨q,_,rfl⟩ | ⟨⟨moved⟩⟩⟩ | ⟨_,⟨done⟩⟩⟩ := postIo_cases result
  · exact ⟨rfl,rfl⟩
  · rw [moved.final]
    exact ⟨rfl,rfl⟩
  · obtain ⟨posts,mid,m,posted,called,_,_,rfl⟩ := done
    have ended := (completed_sameSockets (b.emit (.written node io n.addr (encMsg b n r.msg))) io r writtenIo)
    have called := runPosts_sameSockets called ended
    exact ⟨called.sockets,called.socketMem⟩

theorem expirePending_sameSockets (result : expirePending env b t = some b') : SameSockets b b' := by
  obtain ⟨⟨node,it,n,io,r,mid,n',pending,timers,_,_,_,ioCell,expired,_,_,_,rfl⟩⟩ := expirePending_cases result
  have cell : (b.setIo io (expiring r)).ioMem.cell io = some (expiring r) := by simp [Base.setIo,ioCell]
  have lapsed : SameSockets b mid := by
    rcases expireIo_cases cell expired with ⟨_,posts,mid',called,rfl⟩ | ⟨_,dest,d,posted,_,_,_,rfl⟩
    · have ended := runPosts_sameSockets called (completed_sameSockets _ _ _ _)
      exact ⟨ended.sockets,ended.socketMem⟩
    · exact ⟨rfl,rfl⟩
  exact ⟨lapsed.sockets,lapsed.socketMem⟩

theorem selectTimer_sameSockets (result : selectTimer ready tv env s = some s') : SameSockets s.base s'.base := by
  rcases selectTimer_cases result with rfl | ⟨t,_,timers,_,_,rfl | ⟨_,b,expired,rfl⟩ | ⟨_,b,q,called,_,rfl⟩⟩
  · exact .refl _
  · exact ⟨rfl,rfl⟩
  · have kept := expirePending_sameSockets expired
    exact ⟨kept.sockets,kept.socketMem⟩
  · have kept := runPosts_sameSockets (b := s.base) called ⟨rfl,rfl⟩
    exact ⟨kept.sockets,kept.socketMem⟩

theorem addPair_sameSockets {b : Base} (cell : b.nodeMem.cell node = some n) (env : FrameEnv) (msg : BanoMsg) :
    SameSockets b (addPair env b node n msg) := by
  rw [addPair_eq cell]
  exact ⟨rfl,rfl⟩

theorem dispatch_sameSockets (result : dispatch linfo env b msg node = some b') : SameSockets b b' := by
  rcases dispatch_cases result with ⟨_,handled⟩ | ⟨_,posts,es,called,_⟩
  · obtain ⟨n,cell,cases⟩ := handleSetMsg_cases handled
    have added := addPair_sameSockets cell env msg
    rcases cases with ⟨posts,es,called,_⟩ | ⟨_,⟨_,rfl⟩ | ⟨m,io,_,⟨answer⟩⟩⟩
    · exact runPosts_sameSockets called ⟨added.sockets,added.socketMem⟩
    · exact added
    · have ended := completed_sameSockets
        (((addPair env b node n msg).setNode node { m with pendingIos := answer.pending }).emit (.answered io msg))
          io answer.r
        (answerIo msg)
      have called := runPosts_sameSockets answer.called ended
      rw [(banoFreeIo_cases answer.final).1]
      exact added.trans ⟨called.sockets,called.socketMem⟩
  · exact runPosts_sameSockets called ⟨rfl,rfl⟩

theorem handleBanoMsg_sameSockets (result : handleBanoMsg linfo env b socket msg = some (err,b')) :
    SameSockets b b' := by
  rcases handleBanoMsg_cases result with rfl | ⟨node,_,handled⟩ | ⟨nodes,mid,posts,es,_,called,_,handled⟩
  · exact .refl _
  · exact dispatch_sameSockets handled
  · have called := runPosts_sameSockets (b := b) called ⟨rfl,rfl⟩
    exact called.trans (dispatch_sameSockets handled)

theorem readMsg_sameSockets (result : readMsg linfo env b li (.msg msg) = some b') : SameSockets b b' := by
  obtain ⟨socket,_,result⟩ := Option.bind_eq_some_iff.mp result
  obtain ⟨k,_,result⟩ := Option.bind_eq_some_iff.mp result
  simp only at result
  split at result
  · obtain ⟨⟨_,mid⟩,handled,same⟩ := Option.bind_eq_some_iff.mp result
    obtain rfl := Option.some.inj same
    exact handleBanoMsg_sameSockets handled
  · obtain rfl := Option.some.inj result
    exact .refl _

theorem handleHttpdMsg_sameSockets (result : handleHttpdMsg env b msg = some (err,b')) : SameSockets b b' := by
  by_cases rst : msg.op = .rst
  · rcases handleHttpdMsg_rst rst result with ⟨_,rfl⟩ | ⟨node,n,_,_,rfl⟩ <;> exact ⟨rfl,rfl⟩
  · rcases handleHttpdMsg_posts rst result with rfl | ⟨p,posted⟩
    · exact .refl _
    · exact (postNew_grows posted).sameSockets

theorem doNewNode_sameSockets (result : doNewNode linfo posts b li = some b') : SameSockets b b' := by
  obtain ⟨node,_,result⟩ := Option.bind_eq_some_iff.mp result
  split at result
  · exact runPosts_sameSockets result ⟨rfl,rfl⟩
  · obtain rfl := Option.some.inj result
    exact .refl _

/-- A socket other than the one read stays. -/
theorem readMsg_sockets (result : readMsg linfo env b li outcome = some b') (listed : (p,socket) ∈ b.sockets.entries)
    (other : p ≠ li) : (p,socket) ∈ b'.sockets.entries := by
  cases outcome with
  | msg m =>
    rw [(readMsg_sameSockets result).sockets]
    exact listed
  | again =>
    obtain ⟨_,_,result⟩ := Option.bind_eq_some_iff.mp result
    obtain ⟨_,_,result⟩ := Option.bind_eq_some_iff.mp result
    obtain rfl := Option.some.inj result
    exact listed
  | error =>
    obtain ⟨_,_,result⟩ := Option.bind_eq_some_iff.mp result
    obtain ⟨_,_,result⟩ := Option.bind_eq_some_iff.mp result
    obtain ⟨mid,freed,result⟩ := Option.bind_eq_some_iff.mp result
    obtain ⟨sockets,removed,rfl⟩ := bind_some.mp result
    obtain ⟨after,nodes,freed⟩ := Option.bind_eq_some_iff.mp freed
    obtain ⟨socketMem,_,rfl⟩ := bind_some.mp freed
    obtain ⟨ios,gone,_⟩ := freeNodeItems_released nodes
    have same : after.sockets = b.sockets := by rw [gone.same]
    rw [(LinkedList.del_eq_some removed).1,List.mem_filter]
    exact ⟨same ▸ listed,by simpa using other⟩

/-- What a list read as the next item of a listed one is listed, and another. -/
theorem LinkedList.next_listed {l : LinkedList α} (listed : (it,a) ∈ l.entries) :
    ∃ after, l.next it = some after ∧ ∀ p, after = some p → p ≠ it ∧ ∃ c, (p,c) ∈ l.entries := by
  obtain ⟨before,rest,split⟩ := List.append_of_mem listed
  refine ⟨first rest none,LinkedList.next_eq split,fun p next => ?_⟩
  cases rest with
  | nil => exact nomatch next
  | cons e rest =>
    obtain rfl := Option.some.inj next
    have nodup := l.nodup
    rw [split,List.map_append,List.map_cons,List.map_cons,List.nodup_append] at nodup
    refine ⟨?_,e.2,by simp [split]⟩
    rintro same
    exact (List.nodup_cons.mp nodup.2.1).1 (by simp [same])

theorem LinkedList.head_listed {l : LinkedList α} (head : l.list.head = some p) : ∃ c, (p,c) ∈ l.entries := by
  rw [l.head_eq] at head
  cases entries : l.entries with
  | nil => simp [entries,first] at head
  | cons e rest =>
    rw [entries,first_cons] at head
    obtain rfl := Option.some.inj head
    exact ⟨e.2,by simp⟩

end Bano
