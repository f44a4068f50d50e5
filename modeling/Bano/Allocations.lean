import Bano.LifeCycle

/-! What a failed allocation does to the io of a step: in post_io, and when the timer of a pending io expires. -/
namespace Bano

open Lib

/-- Every io that was accepted is posted, pending or released, and only one of these. -/
def Situated (b : Base) : Prop := ∀ node io r, .posted node io r ∈ b.trace → ∃! k, InSituation b node io r k

/-- The step has a result, in which every io is situated, and the io was completed with no other error. -/
def SituatedAfter (result : Option Base) (io : Ptr) (err : U32) : Prop :=
  ∃ b', result = some b' ∧ Situated b' ∧ ∀ e val, .completed io e val ∈ b'.trace → e = err

theorem Placed.situated {b : Base} (placed : Placed b status) (settled : Settled status)
    (ledger : Ledger b.ioMem b.trace none) :
    Situated b := by
  intro node io r accepted
  obtain ⟨k,here⟩ := placed.inSituation settled ledger accepted
  exact ⟨k,here,fun _ other => other.unique here⟩

theorem LinkedList.occurrences_pos {l : LinkedList Ptr} (listed : (li,io) ∈ l.entries) : 0 < l.occurrences io :=
  List.countP_pos_iff.mpr ⟨_,listed,by simp⟩

/-- An io that is live is in no two lists. -/
theorem InSituation.apart (here : InSituation b p io r k) (live : b.ioMem.cell io = some r')
    (cell : b.nodeMem.cell node = some n)
    (posted : (li,io) ∈ n.postedIos.entries) (pending : (it,io) ∈ n.pendingIos.entries) : False := by
  have some := LinkedList.occurrences_pos posted
  have some' := LinkedList.occurrences_pos pending
  cases k with
  | posted => simp [here.pending node n cell] at some'
  | pending => simp [here.posted node n cell] at some
  | released => simp [here.gone] at live

/-- An io that is live is in some list. -/
theorem InSituation.listed (here : InSituation b p io r k) (live : b.ioMem.cell io = some r') :
    ∃ node n li, b.nodeMem.cell node = some n ∧
      ((li,io) ∈ n.postedIos.entries ∨ (li,io) ∈ n.pendingIos.entries) := by
  have found : ∀ l : LinkedList Ptr, l.occurrences io = 1 → ∃ li, (li,io) ∈ l.entries := by
    intro l once
    obtain ⟨⟨li,i⟩,member,same⟩ := List.countP_pos_iff.mp (Nat.lt_of_lt_of_eq Nat.zero_lt_one once.symm)
    obtain rfl : i = io := of_decide_eq_true same
    exact ⟨li,member⟩
  cases k with
  | posted =>
    obtain ⟨n,cell⟩ := here.attached
    obtain ⟨li,member⟩ := found _ ((here.posted p n cell).trans (if_pos rfl))
    exact ⟨p,n,li,cell,.inl member⟩
  | pending =>
    obtain ⟨n,cell⟩ := here.attached
    obtain ⟨li,member⟩ := found _ ((here.pending p n cell).trans (if_pos rfl))
    exact ⟨p,n,li,cell,.inr member⟩
  | released => simp [here.gone] at live

/-- What is completed is completed now. -/
theorem Ledger.completed_new {trace : List Event} (ledger : Ledger ioMem trace none) (live : ioMem.cell io = some r) :
    .completed io err val ∉ trace := by
  intro member
  have none := ledger.uncalled io r live (by simp)
  exact absurd (List.countP_eq_zero.mp none _ member) (by simp [Event.completes])

/-- The error of a completion that callbacks follow. -/
theorem completed_err {b mid : Base} (ledger : Ledger b.ioMem b.trace none) (live : b.ioMem.cell io = some r')
    (called : runPosts posts (completed b io r f) = some mid) (member : .completed io err val ∈ mid.trace) :
    err = (f r).complErr := by
  obtain ⟨es,trace,new⟩ := (runPosts_grows called).trace
  rw [trace,completed_trace,List.append_assoc] at member
  rcases List.mem_append.mp member with old | later
  · exact absurd old (ledger.completed_new live)
  · rcases List.mem_append.mp later with own | posted
    · unfold completion at own
      split at own
      · have same := List.mem_singleton.mp own
        simp_all
      · exact nomatch own
    · obtain ⟨_,_,_,same,_⟩ := new _ posted
      exact nomatch same

/-- A timer is added if both of its allocations succeed. -/
def PostIoEnv.addsTimer (env : PostIoEnv) : Bool := env.mallocTimer && env.mallocTimerItem

/-- Without a timer post_io leaves the io where it was, and in the pending ios too if their item was allocated. -/
theorem postIo_untimed {b : Base} (placed : Placed b status) (cell : b.nodeMem.cell node = some n)
    (listed : (li,io) ∈ n.postedIos.entries) (ioCell : b.ioMem.cell io = some r) (writes : env.writeFails = false)
    (waits : r.waits = true) (untimed : env.addsTimer = false) :
    postIo env b node li = some ((b.emit (.written node io n.addr (encMsg b n r.msg))).setNode node
      { n with pendingIos := (n.pendingIos.addTail env.mallocPending io).2 }) := by
  have data := LinkedList.data_eq_some.mpr listed
  have missed := banoTimerAdd_fails placed.tailed.queued untimed r.retryMs
  simp [postIo,cell,data,ioCell,writes,waits,Base.emit,Base.setNode,missed]

theorem postIo_situated {b : Base}
    (placed : Placed b status) (settled : Settled status) (ledger : Ledger b.ioMem b.trace none)
    (cell : b.nodeMem.cell node = some n) (listed : (li,io) ∈ n.postedIos.entries) (ioCell : b.ioMem.cell io = some r)
    (writes : env.writeFails = false) (even : r.waits = true → env.mallocPending = env.addsTimer)
    (targets : PostsTo b env.posts) : ∃ b', postIo env b node li = some b' ∧ Situated b' := by
  have finish : ∀ b' status', postIo env b node li = some b' → Placed b' status' → Settled status' →
      ∃ b', postIo env b node li = some b' ∧ Situated b' := fun b' status' result placed' settled' =>
    ⟨b',result,placed'.situated settled' (postIo_ledger ledger result)⟩
  have data := LinkedList.data_eq_some.mpr listed
  cases waits : r.waits with
  | false =>
    have alike : postIo env b node li =
        postIo { env with mallocPending := true, mallocTimer := true, mallocTimerItem := true } b node li := by
      simp [postIo,cell,data,ioCell,writes,waits]
    have done : ∃ b' status',
      postIo { env with mallocPending := true, mallocTimer := true, mallocTimerItem := true } b node li = some b' ∧
        Carried b b' status' ∧ ∀ i s, i ≠ io → status i = some s → status' i = some s :=
      postIo_carried placed settled cell listed writes ⟨rfl,rfl,rfl⟩ targets
    obtain ⟨b',status',result,carried,_⟩ := done
    exact finish b' status' (alike.trans result) carried.placed carried.settled
  | true =>
    cases timed : env.addsTimer with
    | true =>
      obtain ⟨timer,item⟩ := Bool.and_eq_true_iff.mp timed
      obtain ⟨b',status',result,carried,_⟩ :=
        postIo_carried placed settled cell listed writes ⟨(even waits).trans timed,timer,item⟩ targets
      exact finish b' status' result carried.placed carried.settled
    | false =>
      have result := postIo_untimed placed cell listed ioCell writes waits timed
      rw [even waits,timed,LinkedList.addTail_false] at result
      refine finish _ status result ?_ settled
      have written := placed.traced [.written node io n.addr (encMsg b n r.msg)] (by simp)
      refine written.frame (fun p n' cell' => .inl ?_) ?_
        (fun i r' live => ⟨r',live,rfl,rfl,rfl,rfl⟩) (fun _ _ gone => gone)
        (Nat.le_refl _) written.tailed (fun _ => Iff.rfl) (fun _ => rfl) (fun _ => Iff.rfl)
      · by_cases here : p = node
        · subst here
          have same : n' = n := by simpa [Base.setNode,Base.emit,cell] using cell'.symm
          exact ⟨n,cell,by rw [same],by rw [same]⟩
        · exact ⟨n',by simpa [Base.setNode,Base.emit,here] using cell',rfl,rfl⟩
      · intro p k live
        by_cases here : p = node
        · subst here
          exact ⟨_,by simp [Base.setNode,Base.emit,cell]; rfl⟩
        · exact ⟨k,by simpa [Base.setNode,Base.emit,here] using live⟩

/-- One allocation without the other leaves the io in both lists or in none. -/
theorem postIo_even {b b' : Base} (placed : Placed b status) (cell : b.nodeMem.cell node = some n)
    (listed : (li,io) ∈ n.postedIos.entries) (ioCell : b.ioMem.cell io = some r)
    (result : postIo env b node li = some b')
    (situated : Situated b') (waits : r.waits = true) : env.mallocPending = env.addsTimer := by
  have mine := (placed.posted node n cell li io).mp listed
  obtain ⟨_,_,ioCell',_,wait⟩ := placed.held io _ mine
  obtain rfl := Option.some.inj (ioCell.symm.trans ioCell')
  obtain ⟨p,r',accepted⟩ := (placed.accepted io).mp ⟨_,mine⟩
  have ghost : ∀ q m it, b.nodeMem.cell q = some m → (it,io) ∉ m.pendingIos.entries := by
    intro q m it live member
    obtain ⟨t,other⟩ := (placed.pending q m live it io).mp member
    simp [mine] at other
  obtain ⟨n',io',r'',cell',data',ioCell'',writes,cases⟩ := postIo_cases result
  obtain rfl := Option.some.inj (cell.symm.trans cell')
  obtain rfl := Option.some.inj ((LinkedList.data_eq_some.mpr listed).symm.trans data')
  obtain rfl := Option.some.inj (ioCell.symm.trans ioCell'')
  cases timed : env.addsTimer with
  | false =>
    cases pending : env.mallocPending with
    | false => rfl
    | true =>
      obtain ⟨l,added,entries,_⟩ := n.pendingIos.addTail_true io
      rw [postIo_untimed placed cell listed ioCell writes waits timed,pending,added] at result
      obtain rfl := Option.some.inj result
      obtain ⟨k,here,_⟩ := situated p io r' (List.mem_append_left _ accepted)
      have both : ((b.emit (.written node io n.addr (encMsg b n r.msg))).setNode node
        { n with pendingIos := l }).nodeMem.cell node =
          some { n with pendingIos := l } := by simp [Base.setNode,Base.emit,cell]
      have carried : (n.pendingIos.nextItem,io) ∈ l.entries := by rw [entries]; simp
      exact (here.apart (show b.ioMem.cell io = some r from ioCell) both listed carried).elim
  | true =>
    cases pending : env.mallocPending with
    | true => rfl
    | false =>
      obtain ⟨timer,item⟩ := Bool.and_eq_true_iff.mp timed
      rcases cases with ⟨_,⟨q,failed,_⟩ | ⟨⟨moved⟩⟩⟩ | ⟨unacked,_⟩
      · obtain ⟨_,_,added,_⟩ := placed.tailed.add (0,none)
        simp [timer,item,wait waits,added] at failed
      · obtain ⟨t,q,timers,remaining,_,_,removed,final⟩ := moved
        rw [pending,LinkedList.addTail_false] at final
        subst final
        have live : (b.ioMem.modify io fun _ => { r with timer := some t }).cell io =
            some { r with timer := some t } := by
          simp [ioCell]
        obtain ⟨k,here,_⟩ := situated p io r' (List.mem_append_left _ accepted)
        obtain ⟨p',m,it,live',listed'⟩ := here.listed live
        obtain ⟨_,only,_⟩ := placed.posted_only cell mine
        by_cases same : p' = node
        · subst same
          obtain rfl : m = { n with postedIos := remaining } := by simpa [Base.emit,cell] using live'.symm
          rcases listed' with posted | pending'
          · exact (((LinkedList.mem_del removed listed only).mp posted).1 rfl).elim
          · exact (ghost p' n it cell pending').elim
        · have before : b.nodeMem.cell p' = some m := by simpa [Base.emit,same] using live'
          rcases listed' with posted | pending'
          · have other := (placed.posted p' m before it io).mp posted
            rw [mine] at other
            cases other
            exact (same rfl).elim
          · exact (ghost p' m it before pending').elim
      · simp [waits] at unacked

/-- post_io keeps track of its io if and only if the write succeeds and, for an io
that waits, both lists it moves to get their memory or neither does. -/
theorem postIo_situated_iff {b : Base} (placed : Placed b status) (settled : Settled status)
    (ledger : Ledger b.ioMem b.trace none)
    (cell : b.nodeMem.cell node = some n) (listed : (li,io) ∈ n.postedIos.entries) (ioCell : b.ioMem.cell io = some r)
    (targets : PostsTo b env.posts) : SituatedAfter (postIo env b node li) io ioErrSuccess ↔
      env.writeFails = false ∧ (r.waits = true → env.mallocPending = env.addsTimer) := by
  constructor
  · rintro ⟨b',result,situated,_⟩
    obtain ⟨_,_,_,_,_,_,writes,_⟩ := postIo_cases result
    exact ⟨writes,postIo_even placed cell listed ioCell result situated⟩
  · rintro ⟨writes,even⟩
    obtain ⟨b',result,situated⟩ := postIo_situated placed settled ledger cell listed ioCell writes even targets
    refine ⟨b',result,situated,fun e val member => ?_⟩
    obtain ⟨n',io',r',cell',data',ioCell',_,cases⟩ := postIo_cases result
    obtain rfl := Option.some.inj (cell.symm.trans cell')
    obtain rfl := Option.some.inj ((LinkedList.data_eq_some.mpr listed).symm.trans data')
    obtain rfl := Option.some.inj (ioCell.symm.trans ioCell')
    have old : .completed io e val ∉ b.trace := ledger.completed_new ioCell
    rcases cases with ⟨_,⟨_,_,rfl⟩ | ⟨⟨moved⟩⟩⟩ | ⟨_,⟨done⟩⟩
    · exact absurd member (by simp [Base.setNode,Base.emit,old])
    · rw [moved.final] at member
      exact absurd member (by simp [Base.emit,old])
    · rw [done.final] at member
      exact completed_err (b := b.emit (.written node io n.addr (encMsg b n r.msg))) (f := writtenIo)
        (ledger.written ioCell node n.addr _) ioCell done.called
          (by simpa [Base.setNode,released,Base.emit] using member)

/-- The expiry of a timer keeps track of the io if and only if the io has no retry
left, is posted again, or has a completion function for the error. -/
theorem expirePending_situated_iff {b : Base} (placed : Placed b status) (settled : Settled status)
    (ledger : Ledger b.ioMem b.trace none) (mine : status io = some (.pending node li t))
    (ioCell : b.ioMem.cell io = some r)
    (targets : PostsTo b env.posts) : SituatedAfter (expirePending env b t) io ioErrTimeout ↔
      r.retryCount = 0 ∨ env.mallocPosted = true ∨ r.complFn.isSome = true := by
  obtain ⟨⟨n,cell⟩,data,_,ioCell',own,_⟩ := placed.held io _ mine
  obtain rfl := Option.some.inj (ioCell.symm.trans ioCell')
  obtain ⟨listed,_⟩ := placed.pending_only cell mine
  have member : t ∈ timersOf b.timers := (placed.timers t).mpr ⟨io,_,mine,rfl⟩
  have live : (b.setIo io (expiring r)).ioMem.cell io = some (expiring r) := by simp [Base.setIo,ioCell]
  have same : ∀ {b'} (expiry : Expiry env b t b'), expiry.io = io ∧ expiry.r = r := by
    intro b' expiry
    obtain ⟨rfl,item⟩ := Prod.mk.inj (Option.some.inj (data.symm.trans expiry.data))
    obtain rfl := Option.some.inj item
    obtain rfl := Option.some.inj (cell.symm.trans expiry.cell)
    obtain rfl : io = expiry.io :=
      congrArg Prod.snd (List.inj_on_of_nodup_map expiry.n.pendingIos.nodup listed expiry.listed rfl)
    exact ⟨rfl,Option.some.inj (expiry.ioCell.symm.trans ioCell)⟩
  constructor
  · rintro ⟨b',result,_,_⟩
    obtain ⟨expiry⟩ := expirePending_cases result
    obtain ⟨sameIo,sameR⟩ := same expiry
    have expired := expiry.expired
    rw [sameIo,sameR] at expired
    by_contra none
    obtain ⟨more,others⟩ := not_or.mp none
    obtain ⟨malloc,fn⟩ := not_or.mp others
    rw [expireIo,if_neg more] at expired
    simp [own,Bool.eq_false_iff.mpr malloc,Option.not_isSome_iff_eq_none.mp fn] at expired
  · intro condition
    obtain ⟨b',status',result,carried⟩ : ∃ b' status', expirePending env b t = some b' ∧ Carried b b' status' := by
      by_cases last : r.retryCount = 0
      · exact expirePending_ended placed settled mine ioCell targets (if_pos last)
      · cases malloc : env.mallocPosted with
        | true => exact expirePending_carried placed settled member malloc targets
        | false =>
          have fn : r.complFn.isSome = true := (condition.resolve_left last).resolve_left (by simp [malloc])
          apply expirePending_ended placed settled mine ioCell targets
          obtain ⟨f,known⟩ := Option.isSome_iff_exists.mp fn
          rw [expireIo,if_neg last]
          simp [own,show (b.setIo io (expiring r)).nodeMem.cell node = some n from cell,malloc,completeIo,known]
    refine ⟨b',result,carried.placed.situated carried.settled (expirePending_ledger ledger result),
      fun e val completed => ?_⟩
    obtain ⟨expiry⟩ := expirePending_cases result
    obtain ⟨sameIo,sameR⟩ := same expiry
    have expired := expiry.expired
    have start : Ledger (b.setIo io (expiring r)).ioMem (b.setIo io (expiring r)).trace none :=
      ledger.modify io (fun _ => expiring r) fun r' live => by
        obtain rfl := Option.some.inj (ioCell.symm.trans live)
        exact ⟨rfl,rfl,rfl,rfl⟩
    have trace : b'.trace = expiry.mid.trace := (congrArg Base.trace expiry.final).trans rfl
    rw [trace] at completed
    rw [sameIo,sameR] at expired
    rcases expireIo_cases live expired with ⟨_,posts,mid,called,final⟩ | ⟨_,dest,d,posted,_,_,_,final⟩
    · rw [final] at completed
      exact completed_err (f := timeoutIo) start live called (by simpa [released,Base.emit] using completed)
    · rw [final] at completed
      exact absurd completed (start.completed_new live)

/-- When the io of a step is kept track of, whatever allocations fail in it. -/
theorem allocations_iff {b : Base} (alive : Alive b status) (ledger : Ledger b.ioMem b.trace none) :
    (∀ (env : PostIoEnv) node n li io r, b.nodeMem.cell node = some n → (li,io) ∈ n.postedIos.entries →
      b.ioMem.cell io = some r → PostsTo b env.posts → (SituatedAfter (postIo env b node li) io ioErrSuccess ↔
        env.writeFails = false ∧ (r.waits = true → env.mallocPending = env.addsTimer))) ∧
    ∀ (env : TimeoutEnv) t node io r, t ∈ timersOf b.timers → Designates b t node io → b.ioMem.cell io = some r →
      PostsTo b env.posts → (SituatedAfter (expirePending env b t) io ioErrTimeout ↔
        r.retryCount = 0 ∨ env.mallocPosted = true ∨ r.complFn.isSome = true) := by
  constructor
  · intro env node n li io r cell listed ioCell targets
    exact postIo_situated_iff alive.placed alive.settled ledger cell listed ioCell targets
  · intro env t node io r member designates ioCell targets
    obtain ⟨p,li,i,mine,_,only⟩ := alive.placed.designates alive.settled member
    obtain ⟨rfl,rfl⟩ := only node io designates
    exact expirePending_situated_iff alive.placed alive.settled ledger mine ioCell targets

/-- A base with one posted io that waits for its reply. -/
theorem getPost_alive : ∃ b status n r, Alive b status ∧ Ledger b.ioMem b.trace none ∧ b.nodeMem.cell 0 = some n ∧
    (0,0) ∈ n.postedIos.entries ∧ b.ioMem.cell 0 = some r ∧ r.waits = true := by
  obtain ⟨s,ran,view⟩ : ∃ s, run (Loop.step bareLoop) [.post getPost] ⟨twoSockets,none,.idle⟩ = some s ∧
      ((s.base.nodeMem.cell 0).map fun n => n.postedIos.entries) = some [(0,0)] ∧
        (s.base.ioMem.cell 0).map BanoIo.waits = some true :=
    ⟨_,rfl,rfl,rfl⟩
  have reach : Reach (Loop.step bareLoop) Label.Allowed ⟨twoSockets,none,.idle⟩ [.post getPost] s :=
    .extend .start ⟨rfl,fun p member => List.mem_singleton.mp member ▸ ⟨_,rfl⟩⟩ ran
  obtain ⟨status,alive⟩ := (reach_steady twoSockets_idle rfl reach).alive
  have ledger := reach_ledger twoSockets_idle (reach.mono fun _ _ => Label.Allowed.unawaited)
  obtain ⟨n,cell,entries⟩ := Option.map_eq_some_iff.mp view.1
  obtain ⟨r,ioCell,waits⟩ := Option.map_eq_some_iff.mp view.2
  exact ⟨s.base,status,n,r,alive,ledger,cell,by rw [entries]; exact List.mem_cons_self,ioCell,waits⟩

/-- Without any memory the io stays posted. -/
theorem allocations_none : ∃ b, SituatedAfter (postIo ⟨false,false,false,false,[]⟩ b 0 0) 0 ioErrSuccess := by
  obtain ⟨b,status,n,r,alive,ledger,cell,listed,ioCell,_⟩ := getPost_alive
  exact ⟨b,((allocations_iff alive ledger).1 ⟨false,false,false,false,[]⟩ 0 n 0 0 r cell listed ioCell
    (by simp [PostsTo])).mpr
    ⟨rfl,fun _ => rfl⟩⟩

/-- An io whose timer is not allocated is in both lists. -/
theorem allocations_both : ¬∀ (b : Base) (status : Ptr → Option Status) (env : PostIoEnv) (node li io : Ptr)
    (n : BanoNode) (r : BanoIo),
    Alive b status → Ledger b.ioMem b.trace none → b.nodeMem.cell node = some n → (li,io) ∈ n.postedIos.entries →
    b.ioMem.cell io = some r → PostsTo b env.posts → env.writeFails = false →
    SituatedAfter (postIo env b node li) io ioErrSuccess := by
  intro all
  obtain ⟨b,status,n,r,alive,ledger,cell,listed,ioCell,waits⟩ := getPost_alive
  obtain ⟨b',result,situated,_⟩ := all b status ⟨false,true,false,false,[]⟩ 0 0 0 n r alive ledger cell listed ioCell
    (by simp [PostsTo]) rfl
  exact absurd (postIo_even alive.placed cell listed ioCell result situated waits) (by decide)

end Bano
