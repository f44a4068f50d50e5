import Bano.Lasting

/-! Where ios come from and what is told of them, over any steps at all: an io that lives or is listed was posted by a
request, and its record still says so. -/
namespace Bano

open Lib

/-- The record of an io that was posted as `r0`. -/
structure Descends (r r0 : BanoIo) : Prop where
  node : r.node = r0.node
  flags : r.flags = r0.flags
  complFn : r.complFn = r0.complFn
  msg : r.msg = r0.msg

theorem Descends.refl (r : BanoIo) : Descends r r := ⟨rfl,rfl,rfl,rfl⟩

theorem Descends.trans (one : Descends r r') (other : Descends r' r0) : Descends r r0 :=
  ⟨one.node.trans other.node,one.flags.trans other.flags,one.complFn.trans other.complFn,one.msg.trans other.msg⟩

theorem Descends.waits (descends : Descends r r0) : r.waits = r0.waits := by
  rw [BanoIo.waits,BanoIo.waits,descends.flags]

structure Origins (b : Base) : Prop where
  fresh : ∀ node io r, .posted node io r ∈ b.trace → io < b.ioMem.next
  once : ∀ node io r node' r', .posted node io r ∈ b.trace → .posted node' io r' ∈ b.trace → node' = node ∧ r' = r
  request : ∀ node io r, .posted node io r ∈ b.trace → ∃ q : Request, r = { q.io with node := some node }
  record : ∀ io r, b.ioMem.cell io = some r → ∃ node r0, .posted node io r0 ∈ b.trace ∧ Descends r r0
  listed : ∀ p n, b.nodeMem.cell p = some n → ∀ io ∈ listedIos n, ∃ r0, .posted p io r0 ∈ b.trace

/-- An event of which nothing has to be told. -/
def Event.silent : Event → Bool
  | .posted .. => false
  | .written .. => false
  | .completed .. => false
  | _ => true

/-- What a step may tell, `heard` being the message that it reads and the node that it is from. -/
inductive Told (b : Base) (heard : Option (Ptr × BanoMsg)) : Event → Prop where
  | silent : e.silent = true → Told b heard e
  | posted (q : Request) (node io : Ptr) : Told b heard (.posted node io { q.io with node := some node })
  | written : b.nodeMem.cell node = some n → .posted node io r0 ∈ b.trace →
      Told b heard (.written node io n.addr (encMsg b n r0.msg))
  | unacked (err val : U32) : .posted node io r0 ∈ b.trace → r0.waits = false → Told b heard (.completed io err val)
  | failed (io : Ptr) (val : U32) : err ≠ ioErrSuccess → Told b heard (.completed io err val)
  | replied : heard = some (node,m) → .posted node io r0 ∈ b.trace → m.op = msgOpSet → m.has msgFlagReply = true →
      m.has msgFlagErr = false → m.answers r0.msg = true → Told b heard (.completed io ioErrSuccess m.val)

theorem Told.origin (told : Told b heard (.written node io addr frame)) : ∃ n r0,
    b.nodeMem.cell node = some n ∧ .posted node io r0 ∈ b.trace ∧ addr = n.addr ∧ frame = encMsg b n r0.msg := by
  cases told with
  | silent quiet => exact nomatch quiet
  | written cell mine => exact ⟨_,_,cell,mine,rfl,rfl⟩

/-- A step that keeps the origins, and tells what it may. -/
structure Tells (b b' : Base) (heard : Option (Ptr × BanoMsg)) : Prop where
  origins : Origins b'
  told : ∃ es, b'.trace = b.trace ++ es ∧ ∀ e ∈ es, Told b heard e

/-- An event that only says that an io was posted, if anything. -/
def Event.Plain (e : Event) : Prop :=
  e.silent = true ∨ ∃ (q : Request) (node io : Ptr), e = .posted node io { q.io with node := some node }

/-- A step that tells no more. -/
structure Posts (b b' : Base) : Prop where
  origins : Origins b'
  told : ∃ es, b'.trace = b.trace ++ es ∧ ∀ e ∈ es, e.Plain

theorem Event.Plain.told {e : Event} (plain : e.Plain) (b : Base) (heard : Option (Ptr × BanoMsg)) :
    Told b heard e := by
  rcases plain with silent | ⟨q,node,io,rfl⟩
  · exact .silent silent
  · exact .posted q node io

theorem Posts.tells (posts : Posts b b') (heard : Option (Ptr × BanoMsg)) : Tells b b' heard := by
  obtain ⟨origins,es,trace,plain⟩ := posts
  exact ⟨origins,es,trace,fun e member => (plain e member).told b heard⟩

theorem Posts.trans (one : Posts a b) (other : Posts b c) : Posts a c := by
  obtain ⟨_,es,trace,plain⟩ := one
  obtain ⟨origins,fs,trace',plain'⟩ := other
  refine ⟨origins,es ++ fs,by rw [trace',trace,List.append_assoc],fun e member => ?_⟩
  exact (List.mem_append.mp member).elim (plain e) (plain' e)

theorem not_posted_of_silent (silent : Event.silent e = true) (node io : Ptr) (r : BanoIo) :
    e ≠ .posted node io r := by
  rintro rfl
  exact nomatch silent

/-- A step that posts nothing. -/
theorem Origins.frame {b b' : Base} (origins : Origins b) (trace : b'.trace = b.trace ++ es)
    (unposted : ∀ e ∈ es, ∀ node io r, e ≠ .posted node io r) (next : b.ioMem.next ≤ b'.ioMem.next)
    (record : ∀ io r', b'.ioMem.cell io = some r' → ∃ r, b.ioMem.cell io = some r ∧ Descends r' r)
    (listed : ∀ p n', b'.nodeMem.cell p = some n' → ∀ io ∈ listedIos n', ∃ r0,
      .posted p io r0 ∈ b.trace) : Origins b' := by
  have posted : ∀ node io r, .posted node io r ∈ b'.trace ↔ .posted node io r ∈ b.trace := by
    intro node io r
    rw [trace,List.mem_append]
    exact ⟨fun member => member.resolve_right fun late => unposted _ late node io r rfl,.inl⟩
  refine ⟨fun node io r member => ?_,fun node io r node' r' member member' => ?_,fun node io r member => ?_,
    fun io r' cell => ?_,fun p n' cell io member => ?_⟩
  · exact Nat.lt_of_lt_of_le (origins.fresh node io r ((posted _ _ _).mp member)) next
  · exact origins.once node io r node' r' ((posted _ _ _).mp member) ((posted _ _ _).mp member')
  · exact origins.request node io r ((posted _ _ _).mp member)
  · obtain ⟨r,live,same⟩ := record io r' cell
    obtain ⟨node,r0,member,descends⟩ := origins.record io r live
    exact ⟨node,r0,(posted _ _ _).mpr member,same.trans descends⟩
  · obtain ⟨r0,member⟩ := listed p n' cell io member
    exact ⟨r0,(posted _ _ _).mpr member⟩

section

variable {b b' : Base}

/-- A step that leaves nodes and ios alone. -/
theorem Origins.traced (origins : Origins b) (trace : b'.trace = b.trace ++ es)
    (unposted : ∀ e ∈ es, ∀ node io r, e ≠ .posted node io r) (ioMem : b'.ioMem = b.ioMem)
    (nodeMem : b'.nodeMem = b.nodeMem) :
    Origins b' := by
  refine origins.frame trace unposted (Nat.le_of_eq (by rw [ioMem])) (fun io r cell => ?_) fun p n cell => ?_
  · exact ⟨r,ioMem ▸ cell,.refl r⟩
  · exact origins.listed p n (nodeMem ▸ cell)

theorem Origins.silenced (origins : Origins b) (silent : ∀ e ∈ es, Event.silent e = true) :
    Origins { b with trace := b.trace ++ es } :=
  origins.traced rfl (fun e member => not_posted_of_silent (silent e member)) rfl rfl

/-- A node whose ios were all posted to it is stored. -/
theorem Origins.setNode (origins : Origins b) (listed : ∀ io ∈ listedIos n, ∃ r0, .posted node io r0 ∈ b.trace) :
    Origins (b.setNode node n) := by
  refine origins.frame (List.append_nil _).symm (by simp) (Nat.le_refl _) (fun io r cell => ⟨r,cell,.refl r⟩)
    fun p n' cell => ?_
  by_cases here : p = node
  · subst here
    simp only [Base.setNode,Heap.modify_cell_same] at cell
    obtain ⟨_,_,rfl⟩ := Option.map_eq_some_iff.mp cell
    exact listed
  · exact origins.listed p n' (by simpa [Base.setNode,here] using cell)

/-- A record that says the same of its origin is stored. -/
theorem Origins.setIo (origins : Origins b) (cell : b.ioMem.cell io = some r) (same : Descends r' r) :
    Origins (b.setIo io r') := by
  refine origins.frame (List.append_nil _).symm (by simp) (Nat.le_refl _) (fun i r'' cell' => ?_) origins.listed
  by_cases here : i = io
  · subst here
    simp only [Base.setIo,Heap.modify_cell_same,cell,Option.map_some,Option.some.injEq] at cell'
    exact ⟨r,cell,cell' ▸ same⟩
  · exact ⟨r'',by simpa [Base.setIo,here] using cell',.refl r''⟩

theorem Origins.released (origins : Origins b) (io : Ptr) : Origins (released b io) := by
  have trace : (Bano.released b io).trace = b.trace ++ [.released io] := rfl
  refine origins.frame trace (by simp) (Nat.le_refl _) (fun i r cell => ?_) origins.listed
  by_cases here : i = io
  · subst here
    simp [Bano.released] at cell
  · exact ⟨r,by simpa [Bano.released,here] using cell,.refl r⟩

theorem Origins.freed (origins : Origins b) (gone : Released b b' nodes ios) : Origins b' := by
  have trace : b'.trace = b.trace ++ ios.map .released := by rw [gone.same]
  refine origins.frame trace (by simp) (Nat.le_of_eq gone.ioNext.symm) (fun io r cell => ?_) fun p n cell => ?_
  · rw [gone.io] at cell
    split at cell
    · exact nomatch cell
    · exact ⟨r,cell,.refl r⟩
  · rw [gone.node] at cell
    split at cell
    · exact nomatch cell
    · exact origins.listed p n cell

theorem Origins.completed (origins : Origins b) (cell : b.ioMem.cell io = some r) (same : Descends (f r) r) :
    Origins (completed b io r f) := by
  unfold Bano.completed
  split
  · exact (origins.setIo cell same).traced rfl (by simp) rfl rfl
  · exact origins

theorem postNew_origins (origins : Origins b) (result : postNew b p = some b') : Origins b' := by
  rcases postNew_cases result with rfl | ⟨n,posted,cell,entries,_,rfl⟩
  · refine origins.frame (List.append_nil _).symm (by simp) (Nat.le_succ _) (fun io r cell => ?_) origins.listed
    rw [Heap.alloc_erase_cell] at cell
    exact ⟨r,cell,.refl r⟩
  let r : BanoIo := { p.request.io with node := some p.node }
  have mine : Event.posted p.node b.ioMem.next r ∈ (accepted b p.node n posted p.request.io).trace := by
    simp [accepted,r]
  have early : ∀ {node io r'}, Event.posted node io r' ∈ b.trace →
      .posted node io r' ∈ (accepted b p.node n posted p.request.io).trace := List.mem_append_left _
  have cases : ∀ {node io r'}, Event.posted node io r' ∈ (accepted b p.node n posted p.request.io).trace →
      .posted node io r' ∈ b.trace ∧ io < b.ioMem.next ∨ node = p.node ∧ io = b.ioMem.next ∧ r' = r := by
    intro node io r' member
    rcases List.mem_append.mp member with old | new
    · exact .inl ⟨old,origins.fresh node io r' old⟩
    · obtain ⟨rfl,rfl,rfl⟩ := Event.posted.inj (List.mem_singleton.mp new)
      exact .inr ⟨rfl,rfl,rfl⟩
  refine ⟨fun node io r' member => ?_,fun node io r' node' r'' member member' => ?_,fun node io r' member => ?_,
    fun io r' live => ?_,fun q m live io member => ?_⟩
  · rcases cases member with ⟨_,old⟩ | ⟨_,rfl,_⟩
    · exact Nat.lt_succ_of_lt old
    · exact Nat.lt_succ_self _
  · rcases cases member with ⟨old,less⟩ | ⟨rfl,rfl,rfl⟩ <;> rcases cases member' with
      ⟨old',less'⟩ | ⟨rfl,same,rfl⟩
    · exact origins.once node io r' node' r'' old old'
    · exact absurd same (Nat.ne_of_lt less)
    · exact (Nat.lt_irrefl _ less').elim
    · exact ⟨rfl,rfl⟩
  · rcases cases member with ⟨old,_⟩ | ⟨rfl,_,rfl⟩
    · exact origins.request node io r' old
    · exact ⟨p.request,rfl⟩
  · by_cases here : io = b.ioMem.next
    · subst here
      have same : r = r' := Option.some.inj ((Heap.alloc_cell_next _ _).symm.trans live)
      exact ⟨p.node,r,mine,same ▸ .refl r⟩
    · obtain ⟨node,r0,old,descends⟩ := origins.record io r' ((Heap.alloc_cell_other here _).symm.trans live)
      exact ⟨node,r0,early old,descends⟩
  · by_cases here : q = p.node
    · subst here
      obtain rfl : { n with postedIos := posted } = m := by simpa [accepted,cell] using live
      simp only [listedIos,entries,List.map_append,List.mem_append,List.map_cons,List.map_nil,
        List.mem_singleton] at member
      rcases member with (old | rfl) | old
      · obtain ⟨r0,old⟩ := origins.listed p.node n cell io (by simp [listedIos,old])
        exact ⟨r0,early old⟩
      · exact ⟨r,mine⟩
      · obtain ⟨r0,old⟩ := origins.listed p.node n cell io (by simp [listedIos,old])
        exact ⟨r0,early old⟩
    · obtain ⟨r0,old⟩ := origins.listed q m (by simpa [accepted,here] using live) io member
      exact ⟨r0,early old⟩

theorem Posts.refl (origins : Origins b) : Posts b b := ⟨origins,[],(List.append_nil _).symm,by simp⟩

/-- Something is told that says nothing. -/
theorem Posts.silenced (origins : Origins b') (trace : b'.trace = b.trace ++ es)
    (silent : ∀ e ∈ es, Event.silent e = true) :
    Posts b b' := ⟨origins,es,trace,fun e member => .inl (silent e member)⟩

theorem runPosts_posts (origins : Origins b) (result : runPosts posts b = some b') : Posts b b' := by
  refine runPosts_induct (P := Posts b) ?_ result (.refl origins)
  intro mid p mid' before posted
  have origins := postNew_origins before.origins posted
  apply before.trans
  rcases postNew_cases posted with rfl | ⟨n,_,_,_,_,rfl⟩
  · exact ⟨origins,[],(List.append_nil _).symm,by simp⟩
  · exact ⟨origins,_,rfl,fun e member => .inr ⟨p.request,p.node,_,List.mem_singleton.mp member⟩⟩

/-- A callback that follows what says nothing. -/
theorem silenced_posts (origins : Origins b) (silent : ∀ e ∈ es, Event.silent e = true)
    (result : runPosts posts { b with trace := b.trace ++ es } = some b') : Posts b b' :=
  (Posts.silenced (origins.silenced silent) rfl silent).trans (runPosts_posts (origins.silenced silent) result)

/-- What is told before the posts of a callback. -/
theorem called_tells {mid : Base} (origins : Origins mid) (trace : mid.trace = b.trace ++ es)
    (told : ∀ e ∈ es, Told b heard e) (result : runPosts posts mid = some b') : Tells b b' heard := by
  obtain ⟨origins',fs,trace',plain⟩ := runPosts_posts origins result
  refine ⟨origins',es ++ fs,by rw [trace',trace,List.append_assoc],fun e member => ?_⟩
  exact (List.mem_append.mp member).elim (told e) fun late => (plain e late).told b heard

/-- A step that goes on without telling anything. -/
theorem Tells.then {c : Base} (tells : Tells b b' heard) (origins : Origins c) (trace : c.trace = b'.trace ++ fs)
    (silent : ∀ e ∈ fs, Event.silent e = true) : Tells b c heard := by
  obtain ⟨_,es,told,each⟩ := tells
  refine ⟨origins,es ++ fs,by rw [trace,told,List.append_assoc],fun e member => ?_⟩
  rcases List.mem_append.mp member with early | late
  · exact each e early
  · exact .silent (silent e late)

theorem mem_listedIos : io ∈ listedIos n ↔ (∃ li, (li,io) ∈ n.postedIos.entries) ∨ ∃ li,
    (li,io) ∈ n.pendingIos.entries := by
  simp [listedIos]

theorem mem_addTail {l : LinkedList Ptr} (member : (li,io) ∈ (l.addTail malloc i).2.entries) :
    (li,io) ∈ l.entries ∨ io = i := by
  rcases l.addTail_cases malloc i with failed | ⟨l',added,entries,_⟩
  · exact .inl (by simpa [failed] using member)
  · rw [added] at member
    simp only [entries,List.mem_append,List.mem_singleton,Prod.mk.injEq] at member
    exact member.imp id And.right

/-- The io of a node goes from the posted to the pending ios, or is in both. -/
theorem Origins.moved (origins : Origins b) (cell : b.nodeMem.cell node = some n)
    (data : n.postedIos.data li = some io)
    {posted : LinkedList Ptr} (fewer : ∀ e ∈ posted.entries, e ∈ n.postedIos.entries) (malloc : Bool) :
    ∀ i ∈ listedIos { n with postedIos := posted, pendingIos := (n.pendingIos.addTail malloc io).2 },
      ∃ r0, .posted node i r0 ∈ b.trace := by
  intro i member
  rcases mem_listedIos.mp member with ⟨l,early⟩ | ⟨l,late⟩
  · exact origins.listed node n cell i (mem_listedIos.mpr (.inl ⟨l,fewer _ early⟩))
  · rcases mem_addTail late with old | rfl
    · exact origins.listed node n cell i (mem_listedIos.mpr (.inr ⟨l,old⟩))
    · exact origins.listed node n cell i (mem_listedIos.mpr (.inl ⟨li,LinkedList.data_eq_some.mp data⟩))

theorem postIo_tells (origins : Origins b) (result : postIo env b node li = some b')
    (heard : Option (Ptr × BanoMsg)) :
    Tells b b' heard := by
  obtain ⟨n,io,r,cell,data,ioCell,_,cases⟩ := postIo_cases result
  obtain ⟨r0,mine⟩ := origins.listed node n cell io (mem_listedIos.mpr (.inl ⟨li,LinkedList.data_eq_some.mp data⟩))
  obtain ⟨dest,r0',mine',descends⟩ := origins.record io r ioCell
  obtain ⟨rfl,rfl⟩ := origins.once dest io r0' node r0 mine' mine
  let w := Event.written node io n.addr (encMsg b n r.msg)
  have written : Told b heard w := by
    have told : Told b heard _ := .written cell mine
    rw [← descends.msg] at told
    exact told
  have start : Origins (b.emit w) := origins.traced rfl (by simp [w]) rfl rfl
  have early : ∀ {i r1}, Event.posted node i r1 ∈ b.trace → .posted node i r1 ∈ (b.emit w).trace :=
    List.mem_append_left _
  rcases cases with
    ⟨_,⟨q,_,rfl⟩ | ⟨⟨moved⟩⟩⟩ | ⟨unacked,⟨⟨posts,mid,m,posted,done,live,removed,rfl⟩⟩⟩
  · have listed := start.setNode fun i member =>
      (origins.moved cell data (fun _ => id) env.mallocPending i member).imp fun _ => early
    exact ⟨listed.traced (List.append_nil _).symm (by simp) rfl rfl,[w],rfl,by simpa using written⟩
  · have listed := start.setNode fun i member =>
      (origins.moved cell data (fun _ => mem_of_del moved.removed) env.mallocPending i member).imp fun _ => early
    have timed : Descends { r with timer := some moved.t } r := ⟨rfl,rfl,rfl,rfl⟩
    have stored := listed.setIo ioCell timed
    refine ⟨?_,[w],by rw [moved.final]; rfl,by simpa using written⟩
    rw [moved.final]
    exact stored.traced (List.append_nil _).symm (by simp) rfl rfl
  · have called : Tells b mid heard := by
      have told : ∀ e ∈ w :: completion io r writtenIo, Told b heard e := by
        intro e member
        rcases List.mem_cons.mp member with rfl | member
        · exact written
        · unfold completion at member
          split at member
          · obtain rfl := List.mem_singleton.mp member
            exact .unacked _ _ mine (descends.waits.symm.trans unacked)
          · exact nomatch member
      refine called_tells (start.completed ioCell ⟨rfl,rfl,rfl,rfl⟩) ?_ told done
      rw [completed_trace]
      simp [Base.emit,w]
    have gone := called.then (called.origins.released io) rfl (by simp [Event.silent])
    refine gone.then ?_ (List.append_nil _).symm (by simp)
    refine gone.origins.setNode fun i member => gone.origins.listed node m live i ?_
    rcases mem_listedIos.mp member with ⟨l,posted⟩ | ⟨l,pending⟩
    · exact mem_listedIos.mpr (.inl ⟨l,mem_of_del removed posted⟩)
    · exact mem_listedIos.mpr (.inr ⟨l,pending⟩)

theorem answerIo_descends (msg : BanoMsg) (r : BanoIo) : Descends (answerIo msg r) r := by
  unfold answerIo
  split <;> exact ⟨rfl,rfl,rfl,rfl⟩

theorem answerIo_told (same : heard = some (node,msg)) (posted : .posted node io r0 ∈ b.trace)
    (set : msg.op = msgOpSet)
    (reply : msg.has msgFlagReply = true) (answers : msg.answers r0.msg = true) :
    ∀ e ∈ completion io r (answerIo msg), Told b heard e := by
  intro e member
  unfold completion at member
  split at member
  · obtain rfl := List.mem_singleton.mp member
    cases err : msg.has msgFlagErr with
    | true =>
      have failure : (answerIo msg r).complErr = ioErrFailure := by simp [answerIo,err]
      rw [failure]
      exact .failed io _ (by decide)
    | false =>
      have success : (answerIo msg r).complErr = ioErrSuccess ∧ (answerIo msg r).complVal = msg.val := by
        simp [answerIo,err]
      rw [success.1,success.2]
      exact .replied same posted set reply err answers
  · exact nomatch member

/-- A pending io is answered, once the frame's value was stored. -/
theorem answer_tells {mid : Base} (origins : Origins mid) (trace : mid.trace = b.trace ++ es)
    (silent : ∀ e ∈ es, Event.silent e = true) (cell : mid.nodeMem.cell node = some n) (set : msg.op = msgOpSet)
    (reply : msg.has msgFlagReply = true) (answer : Answer mid node n msg io b') : Tells b b' (some (node,msg)) := by
  obtain ⟨li,r,pending,posts,c,t,timers,listed,ioCell,answers,removed,called,_,_,final⟩ := answer
  have unposted : ∀ {node io r}, Event.posted node io r ∈ mid.trace → .posted node io r ∈ b.trace := by
    intro node io r member
    rw [trace,List.mem_append] at member
    exact member.resolve_right fun late => not_posted_of_silent (silent _ late) _ _ _ rfl
  obtain ⟨r0,mine⟩ := origins.listed node n cell io (mem_listedIos.mpr (.inr ⟨li,listed⟩))
  obtain ⟨dest,r0',mine',descends⟩ := origins.record io r ioCell
  obtain ⟨rfl,rfl⟩ := origins.once dest io r0' node r0 mine' mine
  rw [descends.msg] at answers
  have left : Origins (mid.setNode node { n with pendingIos := pending }) := by
    refine origins.setNode fun i member => origins.listed node n cell i ?_
    rcases mem_listedIos.mp member with ⟨l,posted⟩ | ⟨l,pending⟩
    · exact mem_listedIos.mpr (.inl ⟨l,posted⟩)
    · exact mem_listedIos.mpr (.inr ⟨l,mem_of_del removed pending⟩)
  have answered : Origins ((mid.setNode node { n with pendingIos := pending }).emit (.answered io msg)) :=
    left.traced rfl (by simp) rfl rfl
  have calls : Tells b c (some (node,msg)) := by
    have told : ∀ e ∈ es ++ (.answered io msg :: completion io r (answerIo msg)), Told b (some (node,msg)) e := by
      intro e member
      rcases List.mem_append.mp member with early | late
      · exact .silent (silent e early)
      · rcases List.mem_cons.mp late with rfl | late
        · exact .silent rfl
        · exact answerIo_told rfl (unposted mine) set reply answers e late
    refine called_tells (answered.completed ioCell (answerIo_descends msg r)) ?_ told called
    rw [completed_trace]
    simp [Base.emit,Base.setNode,trace]
  have untimed : Origins { c with timers := timers } :=
    calls.origins.traced (List.append_nil _).symm (by simp) rfl rfl
  have stopped := calls.then untimed (List.append_nil _).symm (by simp)
  obtain ⟨rfl,_⟩ := banoFreeIo_cases final
  exact stopped.then (stopped.origins.released io) rfl (by simp [Event.silent])

theorem addPair_origins (origins : Origins b) (cell : b.nodeMem.cell node = some n) (env : FrameEnv) (msg : BanoMsg) :
    Origins (addPair env b node n msg) ∧
      ∃ es, (addPair env b node n msg).trace = b.trace ++ es ∧ ∀ e ∈ es, Event.silent e = true := by
  have added : addPair env b node n msg = _ := addPair_eq cell
  rw [added]
  have silent : ∀ e ∈ if notifies n msg then [Event.sms msg.val] else [], Event.silent e = true := by
    intro e member
    split at member
    · exact List.mem_singleton.mp member ▸ rfl
    · exact nomatch member
  have stored : Origins (b.setNode node { n with keyvalPairs := storedPairs env n msg }) :=
    origins.setNode (origins.listed node n cell)
  exact ⟨stored.traced rfl (fun e member => not_posted_of_silent (silent e member)) rfl rfl,_,rfl,silent⟩

theorem handleSetMsg_tells (origins : Origins b) (set : msg.op = msgOpSet)
    (result : handleSetMsg linfo env b msg node = some b') : Posts b b' ∨ Tells b b' (some (node,msg)) ∧
      ∃ n, b.nodeMem.cell node = some n ∧ n.pendingIos.entries ≠ [] := by
  obtain ⟨n,cell,cases⟩ := handleSetMsg_cases result
  obtain ⟨added,es,trace,silent⟩ := addPair_origins origins cell env msg
  have start : Posts b (addPair env b node n msg) := .silenced added trace silent
  rcases cases with ⟨posts,fs,called,shape,_⟩ | ⟨reply,⟨_,rfl⟩ | ⟨m,io,live,⟨answer⟩⟩⟩
  · have quiet : ∀ e ∈ fs, Event.silent e = true := by rcases shape with rfl | rfl <;> simp [Event.silent]
    exact .inl (start.trans (silenced_posts added quiet called))
  · exact .inl start
  · refine .inr ⟨answer_tells added trace silent live set reply answer,n,cell,fun none => ?_⟩
    have empty : m.pendingIos.entries = [] := by
      rw [addPair_nodeMem cell,if_pos rfl] at live
      exact (Option.some.inj live) ▸ none
    have listed := answer.listed
    rw [empty] at listed
    exact nomatch listed

theorem dispatch_tells (origins : Origins b) (result : dispatch linfo env b msg node = some b') :
    Posts b b' ∨ Tells b b' (some (node,msg)) ∧ ∃ n, b.nodeMem.cell node = some n ∧ n.pendingIos.entries ≠ [] := by
  rcases dispatch_cases result with ⟨set,handled⟩ | ⟨_,posts,es,called,shape⟩
  · exact handleSetMsg_tells origins set handled
  · have quiet : ∀ e ∈ es, Event.silent e = true := by rcases shape with rfl | ⟨_,rfl⟩ <;> simp [Event.silent]
    exact .inl (silenced_posts origins quiet called)

/-- The message that is read, deciphered, with the node that it is from. -/
def heardMsg (b : Base) (frame : BanoMsg) : Option (Ptr × BanoMsg) := do
  let found ← findNodeByAddr b (decMsg b frame).saddr
  let node ← found
  some (node,decMsg b frame)

theorem Origins.registered (origins : Origins b) (nodes : LinkedList Ptr) (addr : U32) (socket : Ptr) :
    Origins (registered b nodes addr socket) := by
  refine origins.frame (List.append_nil _).symm (by simp) (Nat.le_refl _) (fun io r cell => ⟨r,cell,.refl r⟩)
    fun p n cell => ?_
  by_cases here : p = b.nodeMem.next
  · subst here
    obtain rfl : banoNodeAlloc addr socket = n := Option.some.inj ((Heap.alloc_cell_next _ _).symm.trans cell)
    simp [listedIos,banoNodeAlloc]
  · exact origins.listed p n ((Heap.alloc_cell_other here _).symm.trans cell)

theorem handleBanoMsg_tells (origins : Origins b) (result : handleBanoMsg linfo env b socket frame = some (err,b')) :
    Tells b b' (heardMsg b frame) := by
  rcases handleBanoMsg_cases result with rfl | ⟨node,search,handled⟩ | ⟨nodes,mid,posts,es,_,called,shape,handled⟩
  · exact (Posts.refl origins).tells _
  · have heard : heardMsg b frame = some (node,decMsg b frame) := by simp [heardMsg,search]
    rw [heard]
    exact (dispatch_tells origins handled).elim (fun posts => posts.tells _) And.left
  · have quiet : ∀ e ∈ es, Event.silent e = true := by rcases shape with rfl | rfl <;> simp [Event.silent]
    let b1 := registered b nodes (decMsg b frame).saddr socket
    have start : Posts b b1 := .silenced (origins.registered nodes _ socket) (List.append_nil _).symm (by simp)
    have greeted : Posts b1 mid := silenced_posts start.origins quiet called
    rcases dispatch_tells greeted.origins handled with posts | ⟨_,n,cell,pending⟩
    · exact ((start.trans greeted).trans posts).tells _
    · -- no io is pending on a node that is new
      have fresh : ({ b1 with trace := b1.trace ++ es } : Base).nodeMem.cell b.nodeMem.next =
          some (banoNodeAlloc (decMsg b frame).saddr socket) := Heap.alloc_cell_next _ _
      obtain ⟨n',cell',same,_⟩ := (runPosts_grows called).node _ _ fresh
      obtain rfl := Option.some.inj (cell.symm.trans cell')
      rw [same] at pending
      exact (pending rfl).elim

theorem readMsg_tells (origins : Origins b) (result : readMsg linfo env b li (.msg msg) = some b') :
    Tells b b' ((snrfFrame b li env msg).bind fun (_,_,frame) => heardMsg b frame) := by
  obtain ⟨socket,listed,result⟩ := Option.bind_eq_some_iff.mp result
  obtain ⟨k,live,result⟩ := Option.bind_eq_some_iff.mp result
  simp only at result
  split at result
  · next snrf =>
    obtain ⟨⟨err,mid⟩,handled,same⟩ := Option.bind_eq_some_iff.mp result
    obtain rfl := Option.some.inj same
    have frame : snrfFrame b li env msg = some (socket,env,msg) := by simp [snrfFrame,listed,live,snrf]
    rw [frame]
    exact handleBanoMsg_tells origins handled
  · exact Option.some.inj result ▸ (Posts.refl origins).tells _

theorem expirePending_tells (origins : Origins b) (result : expirePending env b t = some b')
    (heard : Option (Ptr × BanoMsg)) :
    Tells b b' heard := by
  obtain ⟨⟨node,it,n,io,r,mid,n',pending,timers,_,cell,listed,ioCell,expired,cell',removed,_,rfl⟩⟩ :=
    expirePending_cases result
  have counted : Origins (b.setIo io (expiring r)) := origins.setIo ioCell ⟨rfl,rfl,rfl,rfl⟩
  have live : (b.setIo io (expiring r)).ioMem.cell io = some (expiring r) := by simp [Base.setIo,ioCell]
  have lapsed : Tells b mid heard := by
    rcases expireIo_cases live expired with ⟨_,posts,c,called,rfl⟩ | ⟨_,dest,d,posted,own,dCell,entries,rfl⟩
    · have calls : Tells b c heard := by
        refine called_tells (counted.completed live ⟨rfl,rfl,rfl,rfl⟩) (completed_trace _ _ _ _)
          (fun e member => ?_) called
        unfold completion at member
        split at member
        · exact List.mem_singleton.mp member ▸ .failed io _ (show ioErrTimeout ≠ ioErrSuccess by decide)
        · cases member
      exact calls.then (calls.origins.released io) rfl (by simp [Event.silent])
    · refine ⟨counted.setNode fun i member => ?_,[],(List.append_nil _).symm,by simp⟩
      rcases mem_listedIos.mp member with ⟨l,early⟩ | ⟨l,late⟩
      · simp only [entries,List.mem_append,List.mem_singleton,Prod.mk.injEq] at early
        rcases early with old | ⟨_,rfl⟩
        · exact counted.listed dest d dCell i (mem_listedIos.mpr (.inl ⟨l,old⟩))
        · -- the io goes back to the node that it was posted to
          obtain ⟨p,r0,mine,descends⟩ := origins.record i r ioCell
          obtain ⟨q,rfl⟩ := origins.request p i r0 mine
          obtain rfl : dest = p := Option.some.inj (own.symm.trans descends.node)
          exact ⟨_,mine⟩
      · exact counted.listed dest d dCell i (mem_listedIos.mpr (.inr ⟨l,late⟩))
  have left : Origins (mid.setNode node { n' with pendingIos := pending }) := by
    refine lapsed.origins.setNode fun i member => lapsed.origins.listed node n' cell' i ?_
    rcases mem_listedIos.mp member with ⟨l,posted⟩ | ⟨l,pending⟩
    · exact mem_listedIos.mpr (.inl ⟨l,posted⟩)
    · exact mem_listedIos.mpr (.inr ⟨l,mem_of_del removed pending⟩)
  exact lapsed.then (left.traced (List.append_nil _).symm (by simp) rfl rfl) (List.append_nil _).symm (by simp)

theorem freeNodeItems_tells (origins : Origins b) (result : freeNodeItems es b = some b') : Posts b b' := by
  obtain ⟨ios,gone,_⟩ := freeNodeItems_released result
  have trace : b'.trace = b.trace ++ ios.map .released := by rw [gone.same]
  exact .silenced (origins.freed gone) trace (by simp [Event.silent])

theorem Posts.same {c : Base} (posts : Posts b b') (trace : c.trace = b'.trace) (ioMem : c.ioMem = b'.ioMem)
    (nodeMem : c.nodeMem = b'.nodeMem) : Posts b c := by
  have quiet : c.trace = b'.trace ++ [] := by simp [trace]
  have origins : Origins c := posts.origins.traced quiet (by simp) ioMem nodeMem
  exact posts.trans (.silenced origins quiet (by simp))

theorem banoSocketFree_posts (origins : Origins b) (result : banoSocketFree b socket = some b') : Posts b b' := by
  obtain ⟨mid,nodes,result⟩ := Option.bind_eq_some_iff.mp result
  obtain ⟨socketMem,_,rfl⟩ := bind_some.mp result
  exact (freeNodeItems_tells origins nodes).same rfl rfl rfl

theorem freeSocketItems_posts (origins : Origins b) (result : freeSocketItems es b = some b') : Posts b b' := by
  induction es generalizing b with
  | nil => exact Option.some.inj result ▸ .refl origins
  | cons e es ih =>
    obtain ⟨mid,freed,rest⟩ := Option.bind_eq_some_iff.mp result
    have first := banoSocketFree_posts origins freed
    exact first.trans (ih first.origins rest)

theorem banoClose_posts (origins : Origins b) (result : banoClose b = some b') : Posts b b' := by
  obtain ⟨timers,_,result⟩ := Option.bind_eq_some_iff.mp result
  obtain ⟨mid,nodes,result⟩ := Option.bind_eq_some_iff.mp result
  obtain ⟨mid',sockets,rfl⟩ := bind_some.mp result
  have stopped : Posts b { b with timers := timers } := (Posts.refl origins).same rfl rfl rfl
  have freed := stopped.trans (freeNodeItems_tells stopped.origins nodes)
  have emptied : Posts b { mid with nodes := .empty } := freed.same rfl rfl rfl
  exact (emptied.trans (freeSocketItems_posts emptied.origins sockets)).same rfl rfl rfl

end

theorem Told.timers {b : Base} {q : TimerQueue} (told : Told { b with timers := q } heard e) : Told b heard e := by
  cases told with
  | silent quiet => exact .silent quiet
  | posted q node io => exact .posted q node io
  | written cell mine =>
    have written : Told b heard _ := .written cell mine
    exact written
  | unacked err val mine waits => exact .unacked err val mine waits
  | failed io val err => exact .failed io val err
  | replied same mine set reply fine answers => exact .replied same mine set reply fine answers

/-- The message that a step reads, with the node that it is from. -/
def Label.heard (s : Loop) (label : Label) : Option (Ptr × BanoMsg) :=
  (label.frame s).bind fun (_,_,frame) => heardMsg s.base frame

theorem selectTimer_tells (origins : Origins s.base) (result : selectTimer ready tv env s = some s')
    (heard : Option (Ptr × BanoMsg)) : Tells s.base s'.base heard := by
  rcases selectTimer_cases result with rfl | ⟨t,_,timers,_,_,rfl | ⟨_,b,expired,rfl⟩ | ⟨_,b,q,called,_,rfl⟩⟩
  · exact (Posts.refl origins).tells _
  · have updated : Posts s.base { s.base with timers := timers } := Posts.same (.refl origins) rfl rfl rfl
    exact updated.tells _
  · have updated : Posts s.base { s.base with timers := timers } := Posts.same (.refl origins) rfl rfl rfl
    obtain ⟨origins',es,trace,told⟩ := expirePending_tells updated.origins expired heard
    exact ⟨origins',es,trace,fun e member => (told e member).timers⟩
  · have updated : Posts s.base { s.base with timers := timers } := Posts.same (.refl origins) rfl rfl rfl
    have silent : ∀ e ∈ [Event.timerFn], e.silent = true := by simp [Event.silent]
    have posts := updated.trans (silenced_posts updated.origins silent called)
    have stopped : Posts s.base { b with timers := q } := posts.same rfl rfl rfl
    exact stopped.tells _

theorem idleStep_tells (origins : Origins s.base) (taken : Loop.idleStep linfo label s = some s') :
    Tells s.base s'.base (label.heard s) := by
  cases label with
  | newNode li posts =>
    obtain ⟨b,called,rfl⟩ := bind_some.mp taken
    obtain ⟨node,_,called⟩ := Option.bind_eq_some_iff.mp called
    split at called
    · have silent : ∀ e ∈ [Event.newNode node], e.silent = true := by simp [Event.silent]
      exact (silenced_posts origins silent called).tells _
    · exact Option.some.inj called ▸ (Posts.refl origins).tells _
  | post p =>
    obtain ⟨b,posted,rfl⟩ := bind_some.mp taken
    have called : runPosts [p] s.base = some b := by simp [runPosts,posted]
    exact (runPosts_posts origins called).tells _
  | addTimer mallocTimer mallocItem =>
    simp only [Loop.idleStep] at taken
    split at taken
    · obtain ⟨⟨timer,timers⟩,_,taken⟩ := Option.bind_eq_some_iff.mp taken
      have added : Posts s.base { s.base with timers := timers } := Posts.same (.refl origins) rfl rfl rfl
      simp only at taken
      split at taken <;> exact Option.some.inj taken ▸ added.tells _
    · exact Option.some.inj taken ▸ (Posts.refl origins).tells _
  | peek li env msg =>
    obtain ⟨b,handled,rfl⟩ := bind_some.mp taken
    exact readMsg_tells origins handled
  | read li env outcome =>
    obtain ⟨b,handled,rfl⟩ := bind_some.mp taken
    cases outcome with
    | again =>
      obtain ⟨_,_,handled⟩ := Option.bind_eq_some_iff.mp handled
      obtain ⟨_,_,handled⟩ := Option.bind_eq_some_iff.mp handled
      exact Option.some.inj handled ▸ (Posts.refl origins).tells _
    | error =>
      obtain ⟨_,_,handled⟩ := Option.bind_eq_some_iff.mp handled
      obtain ⟨_,_,handled⟩ := Option.bind_eq_some_iff.mp handled
      obtain ⟨mid,freed,handled⟩ := Option.bind_eq_some_iff.mp handled
      obtain ⟨sockets,_,rfl⟩ := bind_some.mp handled
      have lost : Posts s.base { mid with sockets := sockets } :=
        (banoSocketFree_posts origins freed).same rfl rfl rfl
      exact lost.tells _
    | msg msg => exact readMsg_tells origins handled
  | write li =>
    obtain ⟨node,_,taken⟩ := Option.bind_eq_some_iff.mp taken
    obtain ⟨n,_,rfl⟩ := bind_some.mp taken
    exact (Posts.refl origins).tells _
  | postIo env => cases taken
  | select ready tv env => exact selectTimer_tells origins taken _
  | selectFails => exact Option.some.inj taken ▸ (Posts.refl origins).tells _
  | close =>
    obtain ⟨b,closed,rfl⟩ := bind_some.mp taken
    exact (banoClose_posts origins closed).tells _

/-- What any step of the loop tells is told of ios that were posted. -/
theorem step_tells (origins : Origins s.base) (taken : Loop.step linfo label s = some s') :
    Tells s.base s'.base (label.heard s) := by
  unfold Loop.step at taken
  split at taken
  · exact idleStep_tells origins taken
  · obtain ⟨n,_,taken⟩ := Option.bind_eq_some_iff.mp taken
    obtain ⟨next,_,taken⟩ := Option.bind_eq_some_iff.mp taken
    obtain ⟨b,written,rfl⟩ := bind_some.mp taken
    exact postIo_tells origins written _
  · obtain ⟨b,closed,rfl⟩ := bind_some.mp taken
    exact (banoClose_posts origins closed).tells _
  · exact nomatch taken

theorem Idle.origins (idle : Idle b) : Origins b := by
  constructor
  · simp [idle.trace]
  · simp [idle.trace]
  · simp [idle.trace]
  · simp [idle.ioMem]
  · intro p n cell io member
    obtain ⟨posted,pending⟩ := idle.unused p n cell
    simp [listedIos,posted,pending] at member

theorem reach_origins (idle : Idle b)
    (reach : Reach (Loop.step linfo) allowed ⟨b,none,.idle⟩ labels s) : Origins s.base :=
  reach.invariant (fun s => Origins s.base) idle.origins fun _ _ _ origins _ taken =>
    (step_tells origins taken).origins

/-- No node comes back. -/
structure Retires (b b' : Base) : Prop where
  next : b.nodeMem.next ≤ b'.nodeMem.next
  known : ∀ p n', p < b.nodeMem.next → b'.nodeMem.cell p = some n' → ∃ n, b.nodeMem.cell p = some n

theorem Calm.retires (calm : Calm b b') : Retires b b' := by
  refine ⟨Nat.le_of_eq calm.next.symm,fun p n' _ cell' => ?_⟩
  obtain ⟨n,cell,_⟩ := calm.face p n' cell'
  exact ⟨n,cell⟩

theorem Retires.trans (one : Retires a b) (other : Retires b c) : Retires a c := by
  refine ⟨Nat.le_trans one.next other.next,fun p n'' old cell'' => ?_⟩
  obtain ⟨n',cell'⟩ := other.known p n'' (Nat.lt_of_lt_of_le old one.next) cell''
  exact one.known p n' old cell'

theorem addPair_retires {b : Base} (cell : b.nodeMem.cell node = some n) (env : FrameEnv) (msg : BanoMsg) :
    Retires b (addPair env b node n msg) := by
  have added : addPair env b node n msg = _ := addPair_eq cell
  refine ⟨by rw [added]; exact Nat.le_refl _,fun p n' _ cell' => ?_⟩
  rw [addPair_nodeMem cell] at cell'
  split at cell'
  · next here => exact ⟨n,here ▸ cell⟩
  · exact ⟨n',cell'⟩

theorem registered_retires (b : Base) (nodes : LinkedList Ptr) (addr : U32) (socket : Ptr) :
    Retires b (registered b nodes addr socket) := by
  refine ⟨Nat.le_succ _,fun p n' old cell' => ⟨n',?_⟩⟩
  rwa [registered,Heap.alloc_cell_other (Nat.ne_of_lt old)] at cell'

theorem Heard.retires (heard : Heard env socket m b b') : Retires b b' := by
  cases heard with
  | other calm _ => exact calm.retires
  | known _ here _ calm => exact (addPair_retires here env m).trans calm.retires
  | @new nodes _ _ _ unset set =>
    have start := registered_retires b nodes m.saddr socket
    by_cases op : m.op = msgOpSet
    · have here : (registered b nodes m.saddr socket).nodeMem.cell b.nodeMem.next =
          some (banoNodeAlloc m.saddr socket) :=
        Heap.alloc_cell_next _ _
      exact (start.trans (addPair_retires here env m)).trans (set op).retires
    · exact start.trans (unset op).retires

theorem step_retires (taken : Loop.step linfo label s = some s') : Retires s.base s'.base := by
  rcases step_heard taken with ⟨_,calm⟩ | ⟨_,_,_,_,heard⟩
  · exact calm.retires
  · exact heard.retires

/-- What was written is the message of its io, as the entry of the node has it enciphered. -/
structure FramedAs (b : Base) (node io : Ptr) (addr : U32) (frame : BanoMsg) : Prop where
  known : node < b.nodeMem.next
  posted : ∃ r0, .posted node io r0 ∈ b.trace ∧
    ∀ n, b.nodeMem.cell node = some n → addr = n.addr ∧ frame = encMsg b n r0.msg

def Framed (b : Base) : Prop := ∀ node io addr frame, .written node io addr frame ∈ b.trace →
    FramedAs b node io addr frame

theorem FramedAs.step {s s' : Loop} (framed : FramedAs s.base node io addr frame)
    (trace : s'.base.trace = s.base.trace ++ es) (taken : Loop.step linfo label s = some s') :
    FramedAs s'.base node io addr frame := by
  obtain ⟨known,r0,posted,as⟩ := framed
  have retires := step_retires taken
  refine ⟨Nat.lt_of_lt_of_le known retires.next,r0,by rw [trace]; exact List.mem_append_left _ posted,
    fun n' cell' => ?_⟩
  obtain ⟨n,cell⟩ := retires.known node n' known cell'
  obtain ⟨addr',flags⟩ := step_wears taken cell cell'
  obtain ⟨rfl,rfl⟩ := as n cell
  exact ⟨addr'.symm,(encMsg_same (step_cipher taken) flags _).symm⟩

theorem step_framed (origins : Origins s.base) (framed : Framed s.base) (taken : Loop.step linfo label s = some s') :
    Framed s'.base := by
  obtain ⟨_,es,trace,told⟩ := step_tells origins taken
  intro node io addr frame written
  rw [trace,List.mem_append] at written
  rcases written with early | late
  · exact (framed node io addr frame early).step trace taken
  · obtain ⟨n,r0,cell,mine,rfl,rfl⟩ := (told _ late).origin
    have start : FramedAs s.base node io n.addr (encMsg s.base n r0.msg) := by
      refine ⟨Heap.lt_next cell,r0,mine,fun n' cell' => ?_⟩
      obtain rfl := Option.some.inj (cell.symm.trans cell')
      exact ⟨rfl,rfl⟩
    exact start.step trace taken

theorem reach_framed (idle : Idle b) (reach : Reach (Loop.step linfo) allowed ⟨b,none,.idle⟩ labels s) :
    Framed s.base := by
  have start : Framed b := by simp [Framed,idle.trace]
  have both := reach.invariant (fun s => Origins s.base ∧ Framed s.base) ⟨idle.origins,start⟩
    fun _ _ _ inv _ taken => ⟨(step_tells inv.1 taken).origins,step_framed inv.1 inv.2 taken⟩
  exact both.2

end Bano
