import Bano.Progress

/-! The story of an io along a run: it is posted, then come cycles of a write, the timer armed for it and the expiry
of that timer, and then what completes it. -/
namespace Bano

open Lib

/-- The event of writing a message for the io of the node. -/
def Sends (b : Base) (node io : Ptr) (m : BanoMsg) (w : Event) : Prop :=
  ∃ n, b.nodeMem.cell node = some n ∧ w = .written node io n.addr (encMsg b n m)

theorem Sends.live {b : Base} (sends : Sends b node io m w) (cell : b.nodeMem.cell node = some n) :
    w = .written node io n.addr (encMsg b n m) := by
  obtain ⟨n',cell',event⟩ := sends
  obtain rfl := Option.some.inj (cell.symm.trans cell')
  exact event

theorem Sends.step {s s' : Loop} (sends : Sends s.base node io m w) (allowed : label.Allowed s)
    (taken : Loop.step linfo label s = some s') : Sends s'.base node io m w := by
  obtain ⟨n,cell,event⟩ := sends
  obtain ⟨n',cell'⟩ := step_lasting allowed taken node n cell
  obtain ⟨addr,flags⟩ := step_wears taken cell cell'
  exact ⟨n',cell',by rw [event,encMsg_same (step_cipher taken) flags,addr]⟩

/-- A write, and the timer that is armed for it and expires. -/
def cycle (w : Event) (io t : Ptr) : List Note := [.event w,.armed io t,.expired io t]

def cycles (w : Event) (io : Ptr) (ts : List Ptr) : List Note := ts.flatMap (cycle w io)

theorem cycles_concat (w : Event) (io : Ptr) (ts : List Ptr) (t : Ptr) :
    cycles w io (ts ++ [t]) = cycles w io ts ++ cycle w io t := by simp [cycles]

/-- The record of an io that was posted as `r0`, after some writes. -/
structure Since (r r0 : BanoIo) (count : Nat) : Prop where
  msg : r.msg = r0.msg
  flags : r.flags = r0.flags
  complFn : r.complFn = r0.complFn
  left : count + r.retryCount.toNat = r0.retryCount.toNat

/-- The story of an io in each status. -/
inductive Account (b : Base) (io : Ptr) : Option Status → Option BanoIo → List Note → Prop where
  | unknown (r : Option BanoIo) : Account b io none r []
  | posted {r r0 : BanoIo} {ts : List Ptr} (node li : Ptr) : Sends b node io r0.msg w → Since r r0 ts.length →
      (r0.waits = false → ts = []) →
      Account b io (some (.posted node li)) (some r) (.event (.posted node io r0) :: cycles w io ts)
  | pending {r r0 : BanoIo} {ts : List Ptr} (node li t : Ptr) : Sends b node io r0.msg w → Since r r0 ts.length →
      r0.waits = true → Account b io (some (.pending node li t)) (some r)
        (.event (.posted node io r0) :: cycles w io ts ++ [.event w,.armed io t])
  | sent {r0 : BanoIo} (node : Ptr) (end' : List Event) : Sends b node io r0.msg w → r0.waits = false →
      (∀ e ∈ end', ∃ err val, e = .completed io err val) → Account b io (some .released) none
        (.event (.posted node io r0) :: noted (w :: end' ++ [.released io]))
  | answered {r0 : BanoIo} {ts : List Ptr} (node t : Ptr) (m : BanoMsg) (end' : List Event) :
      Sends b node io r0.msg w → r0.waits = true → ts.length ≤ r0.retryCount.toNat →
      (∀ e ∈ end', ∃ err val, e = .completed io err val ∧ err ≠ ioErrTimeout) → Account b io (some .released) none
        (.event (.posted node io r0) :: cycles w io ts ++ [.event w,.armed io t] ++
          noted (.answered io m :: end' ++ [.released io]))
  | timedOut {r0 : BanoIo} {ts : List Ptr} (node : Ptr) (end' : List Event) :
      Sends b node io r0.msg w → r0.waits = true → ts.length = r0.retryCount.toNat + 1 →
      (∀ e ∈ end', ∃ val, e = .completed io ioErrTimeout val) → Account b io (some .released) none
        (.event (.posted node io r0) :: cycles w io ts ++ noted (end' ++ [.released io]))

theorem completion_uniform (f : BanoIo → BanoIo) (r : BanoIo) :
    ∀ e ∈ completion io r f, ∃ val, e = .completed io (f r).complErr val := by
  intro e member
  unfold completion at member
  split at member
  · exact ⟨_,List.mem_singleton.mp member⟩
  · exact nomatch member

theorem answerIo_err (msg : BanoMsg) (r : BanoIo) : (answerIo msg r).complErr ≠ ioErrTimeout := by
  unfold answerIo
  split
  · show ioErrFailure ≠ ioErrTimeout
    decide
  · show ioErrSuccess ≠ ioErrTimeout
    decide

/-- The io that stays where it is. -/
theorem Account.stay {s s' : Loop} (allowed : label.Allowed s) (taken : Loop.step linfo label s = some s')
    (account : Account s.base io st r told) : Account s'.base io st r told := by
  cases account with
  | unknown => exact .unknown _
  | posted node li sends since fresh => exact .posted node li (sends.step allowed taken) since fresh
  | pending node li t sends since waits => exact .pending node li t (sends.step allowed taken) since waits
  | sent node end' sends unacked calls => exact .sent node end' (sends.step allowed taken) unacked calls
  | answered node t m end' sends waits few calls =>
    exact .answered node t m end' (sends.step allowed taken) waits few calls
  | timedOut node end' sends waits all calls => exact .timedOut node end' (sends.step allowed taken) waits all calls

theorem Since.new (r : BanoIo) : Since r r 0 := ⟨rfl,rfl,rfl,Nat.zero_add _⟩

theorem Since.waits (since : Since r r0 count) : r0.waits = r.waits := by rw [BanoIo.waits,BanoIo.waits,since.flags]

theorem Since.expiring {r r0 : BanoIo} (since : Since r r0 count) (more : r.retryCount ≠ 0) :
    Since (expiring r) r0 (count + 1) := by
  refine ⟨since.msg,since.flags,since.complFn,?_⟩
  have left := since.left
  have positive : r.retryCount.toNat ≠ 0 := fun zero => more (BitVec.eq_of_toNat_eq zero)
  have less : (Bano.expiring r).retryCount.toNat = r.retryCount.toNat - 1 := by
    simp only [Bano.expiring]
    rw [BitVec.toNat_sub_of_le (by rw [BitVec.le_def]; show 1 ≤ _; omega)]
    rfl
  omega

/-- A step carries the story on. -/
theorem Account.step {s s' : Loop} (allowed : label.Allowed s) (taken : Loop.step linfo label s = some s')
    (live : ∀ node li, st' = some (.posted node li) → ∃ n, s'.base.nodeMem.cell node = some n)
    (account : Account s.base io st r told) (progress : Progress s label io st r new st' r') :
    Account s'.base io st' r' (told ++ new) := by
  cases progress with
  | stays =>
    rw [List.append_nil]
    exact account.stay allowed taken
  | born q node li =>
    cases account with
    | unknown =>
    obtain ⟨n,cell⟩ := live node li rfl
    have account : Account s'.base io _ _ _ :=
      .posted node li ⟨n,cell,rfl⟩ (Since.new { q.io with node := some node })
      fun _ => rfl
    exact account
  | written node li li' t cell waits =>
    cases account with
    | posted _ _ sends since fresh =>
    have event := sends.live cell
    rw [← since.msg] at event
    rw [← event]
    exact .pending node li' t (sends.step allowed taken) ⟨since.msg,since.flags,since.complFn,since.left⟩
      (since.waits.trans waits)
  | sent node li cell unacked =>
    cases account with
    | posted _ _ sends since fresh =>
    obtain rfl := fresh (since.waits.trans unacked)
    rw [since.msg,← sends.live cell]
    refine .sent node _ (sends.step allowed taken) (since.waits.trans unacked) fun e member => ?_
    obtain ⟨val,same⟩ := completion_uniform _ _ e member
    exact ⟨_,val,same⟩
  | answered socket node li t frame search set reply answers =>
    cases account with
    | pending _ _ _ sends since waits =>
    refine .answered node t _ _ (sends.step allowed taken) waits (by have left := since.left; omega)
      fun e member => ?_
    obtain ⟨val,same⟩ := completion_uniform _ _ e member
    exact ⟨_,val,same,answerIo_err _ _⟩
  | reposted node li t li' more =>
    cases account with
    | @pending w _ r0 ts _ _ _ sends since waits =>
    have story : (Note.event (.posted node io r0) :: cycles w io ts ++ [.event w,.armed io t]) ++ [.expired io t] =
        .event (.posted node io r0) :: cycles w io (ts ++ [t]) := by simp [cycles_concat,cycle]
    rw [story]
    refine .posted node li' (sends.step allowed taken) ?_ fun unacked => by simp [waits] at unacked
    rw [List.length_append]
    exact since.expiring more
  | timedOut node li t last =>
    cases account with
    | @pending w _ r0 ts _ _ _ sends since waits =>
    have story : ∀ end' : List Note, (Note.event (.posted node io r0) :: cycles w io ts ++ [.event w,.armed io t]) ++
        .expired io t :: end' = .event (.posted node io r0) :: cycles w io (ts ++ [t]) ++ end' := by
      simp [cycles_concat,cycle]
    rw [story]
    refine .timedOut node _ (sends.step allowed taken) waits ?_ fun e member => ?_
    · have left := since.left
      rw [last] at left
      simp only [List.length_append,List.length_singleton]
      have zero : (0 : U32).toNat = 0 := rfl
      omega
    · exact completion_uniform timeoutIo _ e member

/-- A run of allowed steps, with all that is noted of them. -/
inductive Logged (linfo : LoopInfo) (b : Base) : List Note → Loop → Prop where
  | start : Logged linfo b [] ⟨b,none,.idle⟩
  | next {log : List Note} {s s' : Loop} {label : Label} : Logged linfo b log s → label.Allowed s →
      Loop.step linfo label s = some s' → Logged linfo b (log ++ label.log s s') s'

/-- Where the ios of a run are, and what is noted of them. -/
structure Accounted (log : List Note) (s : Loop) (status : Ptr → Option Status) : Prop where
  alive : Alive s.base status
  account : ∀ io, Account s.base io (status io) (s.base.ioMem.cell io) (story log io)

theorem Accounted.step {s s' : Loop} (accounted : Accounted log s status) (steady : Steady s)
    (noTimer : linfo.timerFn = false)
    (allowed : label.Allowed s) (taken : Loop.step linfo label s = some s') :
    ∃ status', Accounted (log ++ label.log s s') s' status' ∧ Advances s s' label status status' := by
  obtain ⟨status',advances⟩ := step_progress accounted.alive steady.untimed noTimer allowed taken
  obtain ⟨s'',taken',⟨⟨_,alive'⟩,_,_⟩⟩ := steady.step noTimer allowed
  obtain rfl := Option.some.inj (taken.symm.trans taken')
  refine ⟨status',⟨⟨advances.placed,advances.settled,alive'.node,alive'.socket⟩,fun io => ?_⟩,advances⟩
  rw [story_append]
  refine (accounted.account io).step allowed taken (fun node li posted => ?_) (advances.progress io)
  exact (advances.placed.held io _ posted).1

theorem Logged.steady (idle : Idle b) (noTimer : linfo.timerFn = false)
    (logged : Logged linfo b log s) : Steady s := by
  induction logged with
  | start => exact idle.steady
  | next _ allowed taken ih =>
    obtain ⟨s'',taken',steady⟩ := ih.step noTimer allowed
    obtain rfl := Option.some.inj (taken.symm.trans taken')
    exact steady

theorem Logged.accounted (idle : Idle b) (noTimer : linfo.timerFn = false) (logged : Logged linfo b log s) :
    ∃ status, Accounted log s status := by
  induction logged with
  | start => exact ⟨_,idle.alive,fun io => .unknown _⟩
  | next before allowed taken ih =>
    obtain ⟨status,accounted⟩ := ih
    obtain ⟨status',accounted',_⟩ := accounted.step (before.steady idle noTimer) noTimer allowed taken
    exact ⟨status',accounted'⟩

/-- Some allowed steps, as they can be tested. -/
def Label.check (s : Loop) : Label → Bool
  | .post p => s.control = .idle && (s.base.nodeMem.cell p.node).isSome
  | .write li => s.control = .idle && s.base.nodes.entries.any fun e => e.1 = li
  | .postIo env =>
    (match s.control with
      | .writing .. => true
      | _ => false) && !env.writeFails && (env.mallocPending && env.mallocTimer &&
          env.mallocTimerItem) && env.posts.isEmpty
  | .read li env (.msg _) =>
    s.control = .idle && (s.base.sockets.entries.any fun e => e.1 = li) && (env.posts ++ env.nodePosts).isEmpty
  | .select _ tv env => s.control = .idle && env.mallocPosted && env.posts.isEmpty && tv = ⟨0,0⟩
  | _ => false

theorem Label.check_allowed {label : Label} (check : label.check s = true) : label.Allowed s := by
  cases label with
  | post p =>
    simp only [Label.check,Bool.and_eq_true,decide_eq_true_eq,Option.isSome_iff_exists] at check
    exact ⟨check.1,fun q member => List.mem_singleton.mp member ▸ check.2⟩
  | write li =>
    simp only [Label.check,Bool.and_eq_true,decide_eq_true_eq,List.any_eq_true] at check
    obtain ⟨idle,e,listed,rfl⟩ := check
    exact ⟨idle,e.2,listed⟩
  | postIo env =>
    simp only [Label.check,Bool.and_eq_true,Bool.not_eq_true',List.isEmpty_iff] at check
    obtain ⟨⟨⟨writing,writes⟩,⟨pending,timer⟩,item⟩,posts⟩ := check
    refine ⟨?_,writes,⟨pending,timer,item⟩,by simp [PostsTo,posts]⟩
    cases control : s.control with
    | writing node it => exact ⟨node,it,rfl⟩
    | idle | stopped | closed => simp [control] at writing
  | read li env outcome =>
    cases outcome with
    | again | error => cases check
    | msg m =>
      simp only [Label.check,Bool.and_eq_true,decide_eq_true_eq,List.any_eq_true,List.isEmpty_iff] at check
      obtain ⟨⟨idle,e,listed,rfl⟩,posts⟩ := check
      exact ⟨idle,⟨e.2,listed⟩,by simp [FrameReady,posts]⟩
  | select ready tv env =>
    simp only [Label.check,Bool.and_eq_true,decide_eq_true_eq,List.isEmpty_iff] at check
    obtain ⟨⟨⟨idle,malloc⟩,posts⟩,rfl⟩ := check
    exact ⟨idle,malloc,by simp [PostsTo,posts],fun _ _ _ => Nat.zero_le _⟩
  | newNode | addTimer | peek | selectFails | close => cases check

def runLog (linfo : LoopInfo) : List Label → List Note → Loop → Option (List Note × Loop)
  | [], log, s => some (log,s)
  | label :: labels, log, s =>
    if label.check s then do
      let s' ← Loop.step linfo label s
      runLog linfo labels (log ++ label.log s s') s'
    else none

theorem runLog_logged (logged : Logged linfo b log s) (ran : runLog linfo labels log s = some (log',s')) :
    Logged linfo b log' s' := by
  induction labels generalizing log s with
  | nil =>
    obtain ⟨rfl,rfl⟩ := Prod.mk.inj (Option.some.inj ran)
    exact logged
  | cons label labels ih =>
    simp only [runLog] at ran
    split at ran
    · next check =>
      obtain ⟨mid,taken,ran⟩ := Option.bind_eq_some_iff.mp ran
      exact ih (.next logged (Label.check_allowed check) taken) ran
    · exact nomatch ran

def Note.toEvent : Note → Option Event
  | .event e => some e
  | _ => none

/-- The events that are noted are those of the trace. -/
theorem Logged.trace (idle : Idle b) (noTimer : linfo.timerFn = false) (logged : Logged linfo b log s) :
    log.filterMap Note.toEvent = s.base.trace := by
  induction logged with
  | start => simp [idle.trace]
  | @next log s s' label before allowed taken ih =>
    obtain ⟨status,accounted⟩ := before.accounted idle noTimer
    obtain ⟨_,_,advances⟩ := accounted.step (before.steady idle noTimer) noTimer allowed taken
    have expired : ((label.expired s).toList.map fun e => Note.expired e.1 e.2).filterMap Note.toEvent = [] := by
      simp [List.filterMap_eq_nil_iff,Note.toEvent]
    have armed : ((label.armed s s').toList.map fun e => Note.armed e.1 e.2).filterMap Note.toEvent = [] := by
      simp [List.filterMap_eq_nil_iff,Note.toEvent]
    have events : ∀ es, (noted es).filterMap Note.toEvent = es := by
      intro es
      rw [noted,List.filterMap_map]
      exact List.filterMap_some
    rw [List.filterMap_append,ih,Label.log,List.filterMap_append,List.filterMap_append,expired,armed,events,
      List.nil_append,List.append_nil]
    exact List.prefix_iff_eq_append.mp advances.trace

theorem Request.clear (q : Request) : q.io.msg.has msgFlagEnc = false := by
  have flags : q.io.msg.flags = 0 := by cases q <;> rfl
  rw [BanoMsg.has,flags]
  rfl

theorem Progress.requested {r0 : BanoIo} {s : Loop} {label : Label} (progress : Progress s label io st r new st' r')
    (posted : .event (.posted node io r0) ∈ new) : ∃ q : Request, r0 = { q.io with node := some node } := by
  have noCall : ∀ {f : BanoIo → BanoIo} {r : BanoIo}, .posted node io r0 ∉ completion io r f := by
    intro f r member
    obtain ⟨_,same⟩ := completion_uniform f r _ member
    exact nomatch same
  cases progress with
  | stays => exact nomatch posted
  | born q node' =>
    obtain ⟨rfl,_,rfl⟩ := Event.posted.inj (Note.event.inj (List.mem_singleton.mp posted))
    exact ⟨q,rfl⟩
  | written | reposted => simp at posted
  | sent | answered | timedOut => simp [noted,noCall] at posted

theorem Logged.requested (idle : Idle b) (noTimer : linfo.timerFn = false) (logged : Logged linfo b log s)
    (posted : .event (.posted node io r) ∈ log) : ∃ q : Request, r = { q.io with node := some node } := by
  induction logged with
  | start => exact nomatch posted
  | next before allowed taken ih =>
    rcases List.mem_append.mp posted with early | late
    · exact ih early
    · obtain ⟨status,accounted⟩ := before.accounted idle noTimer
      obtain ⟨_,_,advances⟩ := accounted.step (before.steady idle noTimer) noTimer allowed taken
      exact (advances.progress io).requested (List.mem_filter.mpr ⟨late,decide_eq_true rfl⟩)

end Bano
