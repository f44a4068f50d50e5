import Bano.Accounts

/-! How often an io is written, and when it times out. -/
namespace Bano

open Lib

def Note.writes (io : Ptr) : Note → Bool
  | .event (.written _ i _ _) => i = io
  | _ => false

def writes (log : List Note) (io : Ptr) : Nat := log.countP (Note.writes io)

/-- A write of the io, or its timer being armed or expiring. -/
def Note.tries (io : Ptr) : Note → Bool
  | .event (.written _ i _ _) => i = io
  | .armed i _ => i = io
  | .expired i _ => i = io
  | _ => false

theorem tries_io {e : Note} {io : Ptr} (tries : e.tries io = true) : e.io = some io := by
  cases e with
  | event e =>
    cases e with
    | written node i addr frame => exact congrArg some (of_decide_eq_true tries)
    | _ => exact nomatch tries
  | armed i t => exact congrArg some (of_decide_eq_true tries)
  | expired i t => exact congrArg some (of_decide_eq_true tries)

theorem tries_writes {e : Note} {io : Ptr} (writes : e.writes io = true) : e.tries io = true := by
  cases e with
  | event e => cases e <;> exact writes
  | armed i t | expired i t => exact nomatch writes

theorem tries_story (log : List Note) (io : Ptr) :
    log.filter (Note.tries io) = (story log io).filter (Note.tries io) := by
  rw [story,List.filter_filter]
  apply List.filter_congr
  intro e _
  cases tries : e.tries io with
  | false => simp
  | true => simp [tries_io tries]

theorem writes_story (log : List Note) (io : Ptr) : writes log io = writes (story log io) io := by
  rw [writes,writes,story,List.countP_filter]
  apply List.countP_congr
  intro e _
  cases write : e.writes io with
  | false => simp
  | true => simp [tries_io (tries_writes write)]

@[simp] theorem writes_append (log es : List Note) (io : Ptr) :
    writes (log ++ es) io = writes log io + writes es io :=
  List.countP_append

@[simp] theorem writes_posted (node io : Ptr) (r : BanoIo) (log : List Note) :
    writes (.event (.posted node io r) :: log) io = writes log io := List.countP_cons_of_neg (by simp [Note.writes])

theorem writes_cycles (node io : Ptr) (addr : U32) (frame : BanoMsg) (ts : List Ptr) :
    writes (cycles (.written node io addr frame) io ts) io = ts.length := by
  induction ts with
  | nil => rfl
  | cons t ts ih =>
    have one : writes (cycle (.written node io addr frame) io t) io = 1 := by simp [writes,cycle,Note.writes]
    show writes (cycle (.written node io addr frame) io t ++ cycles (.written node io addr frame) io ts) io = _
    rw [writes_append,one,ih,List.length_cons,Nat.add_comm]

theorem tries_cycles (node io : Ptr) (addr : U32) (frame : BanoMsg) (ts : List Ptr) :
    (cycles (.written node io addr frame) io ts).filter (Note.tries io) =
      cycles (.written node io addr frame) io ts := by
  apply List.filter_eq_self.mpr
  intro e member
  obtain ⟨t,_,member⟩ := List.mem_flatMap.mp member
  simp only [cycle,List.mem_cons,List.not_mem_nil,or_false] at member
  rcases member with rfl | rfl | rfl <;> simp [Note.tries]

/-- Events that neither post nor write. -/
def Closing (es : List Event) : Prop :=
  ∀ e ∈ es, (∀ node io r, e ≠ .posted node io r) ∧ ∀ node io addr frame, e ≠ .written node io addr frame

theorem Closing.tries (closing : Closing es) (io : Ptr) : (noted es).filter (Note.tries io) = [] := by
  apply List.filter_eq_nil_iff.mpr
  intro e member
  obtain ⟨e,listed,rfl⟩ := List.mem_map.mp member
  have silent := (closing e listed).2
  cases e with
  | written node i addr frame => exact (silent node i addr frame rfl).elim
  | _ => simp [Note.tries]

theorem Closing.writes (closing : Closing es) (io : Ptr) : writes (noted es) io = 0 := by
  apply List.countP_eq_zero.mpr
  intro e member write
  have none := List.filter_eq_nil_iff.mp (closing.tries io) e member
  exact none (tries_writes write)

/-- The shape of the story of an io that was posted: it is tried, then closed. -/
inductive Shape (node io : Ptr) (r0 : BanoIo) (w : Event) : List Note → Prop where
  | fresh : r0.waits = false → Shape node io r0 w [.event (.posted node io r0)]
  | sent (es : List Event) : r0.waits = false → Closing es → Shape node io r0 w
      (.event (.posted node io r0) :: .event w :: noted es)
  | waiting (ts : List Ptr) (t : Ptr) (es : List Event) : r0.waits = true → ts.length ≤ r0.retryCount.toNat →
      Closing es → (∀ val, .completed io ioErrTimeout val ∉ es) → Shape node io r0 w
        (.event (.posted node io r0) :: cycles w io ts ++ ([.event w,.armed io t] ++ noted es))
  | lapsed (ts : List Ptr) (es : List Event) : r0.waits = true → ts.length ≤ r0.retryCount.toNat + 1 →
      Closing es → (es ≠ [] → ts.length = r0.retryCount.toNat + 1) → Shape node io r0 w
        (.event (.posted node io r0) :: cycles w io ts ++ noted es)

theorem Closing.completed (calls : ∀ e ∈ es, ∃ err val, e = .completed io err val) (start : Closing fs) :
    Closing (fs ++ es ++ [.released io]) := by
  intro e member
  simp only [List.mem_append,List.mem_singleton] at member
  rcases member with (early | called) | rfl
  · exact start e early
  · obtain ⟨err,val,rfl⟩ := calls e called
    simp
  · simp

theorem posted_cycles (node' node io : Ptr) (r : BanoIo) (addr : U32) (frame : BanoMsg) (ts : List Ptr) :
    .event (.posted node' io r) ∉ cycles (.written node io addr frame) io ts := by
  intro late
  obtain ⟨t,_,late⟩ := List.mem_flatMap.mp late
  simp [cycle] at late

theorem Closing.posted (closing : Closing es) (node io : Ptr) (r : BanoIo) :
    .event (.posted node io r) ∉ noted es := by
  intro late
  obtain ⟨e,listed,same⟩ := List.mem_map.mp late
  cases same
  exact (closing _ listed).1 _ _ _ rfl

/-- A story has a shape, and it is that of what was posted. -/
theorem Account.shape (account : Account b io st r told) (member : .event (.posted node io r0) ∈ told) :
    ∃ n, b.nodeMem.cell node = some n ∧ Shape node io r0 (.written node io n.addr (encMsg b n r0.msg)) told := by
  have head : ∀ {node' r0' rest}, told = .event (.posted node' io r0') :: rest →
      (∀ node r, .event (.posted node io r) ∉ rest) → node' = node ∧ r0' = r0 := by
    intro node' r0' rest same others
    rw [same] at member
    rcases List.mem_cons.mp member with here | late
    · cases here
      exact ⟨rfl,rfl⟩
    · exact (others node r0 late).elim
  cases account with
  | unknown => exact nomatch member
  | @posted _ r r0' ts node' li sends since fresh =>
    obtain ⟨n,cell,rfl⟩ := sends
    obtain ⟨rfl,rfl⟩ := head rfl fun _ _ => posted_cycles _ _ _ _ _ _ _
    refine ⟨n,cell,?_⟩
    cases waits : r0'.waits with
    | false =>
      obtain rfl := fresh waits
      exact .fresh waits
    | true =>
      have left := since.left
      have shape : Shape node' io r0' (.written node' io n.addr (encMsg b n r0'.msg)) _ :=
        .lapsed ts [] waits (by omega) (by simp [Closing]) (by simp)
      rwa [noted,List.map_nil,List.append_nil] at shape
  | @pending _ r r0' ts node' li t sends since waits =>
    obtain ⟨n,cell,rfl⟩ := sends
    obtain ⟨rfl,rfl⟩ := head rfl fun _ _ late =>
      (List.mem_append.mp late).elim (posted_cycles _ _ _ _ _ _ _) (by simp)
    have left := since.left
    exact ⟨n,cell,.waiting ts t [] waits (by omega) (by simp [Closing]) (by simp)⟩
  | @sent _ r0' node' end' sends unacked calls =>
    obtain ⟨n,cell,rfl⟩ := sends
    have closing : Closing ([] ++ end' ++ [.released io]) := .completed calls (by simp [Closing])
    obtain ⟨rfl,rfl⟩ := head rfl fun _ _ late => (List.mem_cons.mp late).elim (by simp) (closing.posted _ _ _)
    exact ⟨n,cell,.sent _ unacked closing⟩
  | @answered _ r0' ts node' t m end' sends waits few calls =>
    obtain ⟨n,cell,rfl⟩ := sends
    have closing : Closing ([.answered io m] ++ end' ++ [.released io]) :=
      .completed (fun e member => (calls e member).imp fun err => .imp fun val => And.left) (by simp [Closing])
    rw [List.append_assoc]
    obtain ⟨rfl,rfl⟩ := head (List.append_assoc _ _ _) fun _ _ late => (List.mem_append.mp late).elim
      (posted_cycles _ _ _ _ _ _ _) fun late => (List.mem_append.mp late).elim (by simp) (closing.posted _ _ _)
    refine ⟨n,cell,.waiting ts t _ waits few closing fun val late => ?_⟩
    simp only [List.cons_append,List.mem_cons,List.mem_append,List.not_mem_nil,reduceCtorEq,false_or,or_false] at late
    obtain ⟨err,_,same,other⟩ := calls _ late
    cases same
    exact other rfl
  | @timedOut _ r0' ts node' end' sends waits all calls =>
    obtain ⟨n,cell,rfl⟩ := sends
    have closing : Closing ([] ++ end' ++ [.released io]) :=
      .completed (fun e member => ⟨_,calls e member⟩) (by simp [Closing])
    obtain ⟨rfl,rfl⟩ := head rfl fun _ _ late => (List.mem_append.mp late).elim (posted_cycles _ _ _ _ _ _ _)
      (closing.posted _ _ _)
    exact ⟨n,cell,.lapsed ts _ waits (by omega) closing fun _ => all⟩

/-- What comes before an element that is not among the first. -/
theorem split_after {xs ys : List α} (split : front ++ x :: back = xs ++ ys) (absent : x ∉ xs) :
    ∃ mid, front = xs ++ mid ∧ ys = mid ++ x :: back := by
  rcases List.append_eq_append_iff.mp split with ⟨more,rfl,late⟩ | ⟨mid,rfl,late⟩
  · cases more with
    | nil => exact ⟨[],by simp,by simpa using late.symm⟩
    | cons y more =>
      obtain ⟨rfl,_⟩ := List.cons.inj late
      exact (absent (by simp)).elim
  · exact ⟨mid,rfl,late⟩

/-- The end of an io, as it is noted. -/
def Ends (io : Ptr) (e : Event) : Prop := e = .released io ∨ ∃ err val, e = .completed io err val

theorem Closing.part (closing : Closing es) (split : noted es = mid ++ back) : ∃ fs, mid = noted fs ∧ Closing fs := by
  obtain ⟨fs,gs,same,rfl,_⟩ := List.map_eq_append_iff.mp split
  exact ⟨fs,rfl,fun e member => closing e (same ▸ List.mem_append_left _ member)⟩

section

variable {node io : Ptr} {r0 : BanoIo} {addr : U32} {frame : BanoMsg} {told : List Note}

theorem Shape.once (shape : Shape node io r0 (.written node io addr frame) told) (unacked : r0.waits = false) :
    writes told io ≤ 1 ∧ ∀ front e back, told = front ++ .event e :: back → Ends io e → writes front io = 1 := by
  cases shape with
  | fresh =>
    refine ⟨Nat.zero_le _,fun front e back split ends => ?_⟩
    have split' : front ++ .event e :: back = [.event (.posted node io r0)] ++ [] := split.symm
    obtain ⟨mid,_,late⟩ := split_after split' (by rcases ends with rfl | ⟨_,_,rfl⟩ <;> simp)
    simp at late
  | sent es _ closing =>
    let w := Event.written node io addr frame
    have one : writes [.event (.posted node io r0),.event w] io = 1 := by simp [writes,Note.writes,w]
    have split : Note.event (.posted node io r0) :: .event w :: noted es =
      [.event (.posted node io r0),.event w] ++ noted es := rfl
    refine ⟨?_,fun front e back split' ends => ?_⟩
    · rw [split,writes_append,one,closing.writes]
    · obtain ⟨mid,rfl,late⟩ :=
        split_after (split'.symm.trans split) (by rcases ends with rfl | ⟨_,_,rfl⟩ <;> simp [w])
      obtain ⟨fs,rfl,closing'⟩ := closing.part late
      rw [writes_append,one,closing'.writes]
  | waiting _ _ _ waits | lapsed _ _ waits => simp [waits] at unacked

theorem Shape.few (shape : Shape node io r0 (.written node io addr frame) told) (waits : r0.waits = true) :
    writes told io ≤ r0.retryCount.toNat + 1 := by
  cases shape with
  | fresh unacked | sent _ unacked => simp [waits] at unacked
  | waiting ts t es _ few closing =>
    have one : writes [.event (.written node io addr frame),.armed io t] io = 1 := by simp [writes,Note.writes]
    rw [writes_append,writes_append,writes_posted,writes_cycles,one,closing.writes]
    omega
  | lapsed ts es _ few closing =>
    rw [writes_append,writes_posted,writes_cycles,closing.writes]
    exact few

theorem Shape.carries (shape : Shape node io r0 (.written node io addr frame) told)
    (written : .event (.written node' io addr' frame') ∈ told) : node' = node ∧ addr' = addr ∧ frame' = frame := by
  have inCycle : ∀ {ts : List Ptr}, .event (.written node' io addr' frame') ∈
    cycles (.written node io addr frame) io ts →
      node' = node ∧ addr' = addr ∧ frame' = frame := by
    intro ts member
    obtain ⟨t,_,member⟩ := List.mem_flatMap.mp member
    simpa [cycle] using member
  have notClosing : ∀ {es : List Event}, Closing es → .event (.written node' io addr' frame') ∉ noted es := by
    intro es closing late
    obtain ⟨e,listed,same⟩ := List.mem_map.mp late
    cases same
    exact (closing _ listed).2 _ _ _ _ rfl
  cases shape with
  | fresh => simp at written
  | sent es _ closing => simpa [notClosing closing] using written
  | waiting ts t es _ _ closing =>
    simp only [List.cons_append,List.mem_cons,List.mem_append,notClosing closing,Note.event.injEq,Event.written.injEq,
      reduceCtorEq,List.not_mem_nil,false_or,or_false] at written
    exact written.elim inCycle fun same => ⟨same.1,same.2.2⟩
  | lapsed ts es _ _ closing =>
    simp only [List.cons_append,List.mem_cons,List.mem_append,notClosing closing,Note.event.injEq,
      reduceCtorEq,false_or,
      or_false] at written
    exact inCycle written

theorem Shape.lapses (shape : Shape node io r0 (.written node io addr frame) told) (waits : r0.waits = true)
    (split : told = front ++ .event (.completed io ioErrTimeout val) :: back) : ∃ ts,
      ts.length = r0.retryCount.toNat + 1 ∧
      front.filter (Note.tries io) = cycles (.written node io addr frame) io ts := by
  have absent : ∀ {ts : List Ptr}, .event (.completed io ioErrTimeout val) ∉ .event (.posted node io r0) ::
      cycles (.written node io addr frame) io ts := by
    intro ts member
    simp [cycles,cycle] at member
  cases shape with
  | fresh unacked | sent _ unacked => simp [waits] at unacked
  | waiting ts t es _ _ _ never =>
    obtain ⟨mid,_,late⟩ := split_after split.symm absent
    have member : Note.event (.completed io ioErrTimeout val) ∈
        [.event (.written node io addr frame),.armed io t] ++ noted es :=
      late ▸ List.mem_append_right _ List.mem_cons_self
    simp [noted,never] at member
  | lapsed ts es _ _ closing all =>
    obtain ⟨mid,rfl,late⟩ := split_after split.symm absent
    obtain ⟨fs,rfl,closing'⟩ := closing.part late
    refine ⟨ts,all ?_,?_⟩
    · rintro rfl
      simp [noted] at late
    · have first : Note.tries io (.event (.posted node io r0)) = false := rfl
      rw [List.filter_append,List.filter_cons,first,tries_cycles,closing'.tries,List.append_nil]
      rfl

end

/-- An io is written once if it waits for no reply, and else at most once more than it may be retried, always with the
same contents; if it times out it was written that often, and each time the timer armed for the write expired. -/
theorem retries_counted (idle : Idle b) (noTimer : linfo.timerFn = false) (logged : Logged linfo b log s)
    (posted : .event (.posted node io r) ∈ log) :
    (r.waits = false → writes log io ≤ 1 ∧
      ∀ front e back, log = front ++ .event e :: back → Ends io e → writes front io = 1) ∧
    (r.waits = true → writes log io ≤ r.retryCount.toNat + 1 ∧
      ∀ front val back, log = front ++ .event (.completed io ioErrTimeout val) :: back →
        ∃ (w : Event) (ts : List Ptr), (∃ addr frame, w = .written node io addr frame) ∧
          ts.length = r.retryCount.toNat + 1 ∧
          front.filter (Note.tries io) = ts.flatMap (cycle w io)) ∧
    ∀ node' addr frame, .event (.written node' io addr frame) ∈ log → (decMsg s.base frame).op = r.msg.op ∧
      (decMsg s.base frame).key = r.msg.key ∧ (decMsg s.base frame).val = r.msg.val := by
  obtain ⟨status,accounted⟩ := logged.accounted idle noTimer
  obtain ⟨n,_,shape⟩ := (accounted.account io).shape (List.mem_filter.mpr ⟨posted,decide_eq_true rfl⟩)
  have part : ∀ front e back, log = front ++ .event e :: back → e.io = some io →
      story log io = story front io ++ .event e :: story back io := by
    intro front e back split about
    have here : story (.event e :: back) io = .event e :: story back io :=
      List.filter_cons_of_pos (decide_eq_true about)
    rw [split,story_append,here]
  refine ⟨fun unacked => ?_,fun waits => ⟨?_,fun front val back split => ?_⟩,fun node' addr frame written => ?_⟩
  · obtain ⟨once,before⟩ := shape.once unacked
    refine ⟨writes_story log io ▸ once,fun front e back split ends => ?_⟩
    rw [writes_story]
    exact before _ e _ (part front e back split (by rcases ends with rfl | ⟨_,_,rfl⟩ <;> rfl)) ends
  · exact writes_story log io ▸ shape.few waits
  · obtain ⟨ts,all,tries⟩ := shape.lapses waits (part front _ back split rfl)
    exact ⟨_,ts,⟨_,_,rfl⟩,all,(tries_story front io).trans tries⟩
  · obtain ⟨_,_,rfl⟩ := shape.carries (List.mem_filter.mpr ⟨written,decide_eq_true rfl⟩)
    obtain ⟨q,rfl⟩ := logged.requested idle noTimer posted
    rw [decMsg_encMsg s.base n q.clear]
    exact ⟨rfl,rfl,rfl⟩

def attempt : List Label := [.write 0,.postIo bareWrite,.select false ⟨0,0⟩ retryEnv]

/-- No reply comes, three retries included. -/
def lapsingRun : List Label := .post getPost :: (attempt ++ attempt ++ attempt ++ attempt)

theorem retries_counted_lapsing : ∃ log s front back,
    runLog bareLoop lapsingRun [] ⟨twoSockets,none,.idle⟩ = some (log,s) ∧
    log = front ++ .event (.completed 0 ioErrTimeout 0) :: back ∧ writes log 0 ≤ 4 ∧
    ∃ (w : Event) (ts : List Ptr), ts.length = 4 ∧ front.filter (Note.tries 0) = ts.flatMap (cycle w 0) := by
  obtain ⟨⟨log,s⟩,ran,view⟩ : ∃ r, runLog bareLoop lapsingRun [] ⟨twoSockets,none,.idle⟩ = some r ∧
      (r.1.head?,r.1.drop 13) = (some (.event (.posted 0 0 { getPost.request.io with node := some 0 })),
        [.event (.completed 0 ioErrTimeout 0),.event (.released 0)]) := Option.map_eq_some_iff.mp rfl
  obtain ⟨head,last⟩ := Prod.mk.inj view
  have split := (List.take_append_drop 13 log).symm
  rw [last] at split
  have accounting := retries_counted twoSockets_idle rfl (runLog_logged .start ran) (List.mem_of_head? head)
  obtain ⟨few,lapses⟩ := accounting.2.1 rfl
  obtain ⟨w,ts,_,all,tries⟩ := lapses _ _ _ split
  exact ⟨log,s,_,_,ran,split,few,w,ts,all,tries⟩

end Bano
