import Bano.Exchange
import Bano.Lib.Channel

/-! The base and one node over a radio that loses, copies and delays what they send. -/
namespace Bano

open Lib

/-- What is transmitted to the node of this address, with the io that it is transmitted for. -/
def sentTo (addr : U32) (es : List Event) : List (Ptr × BanoMsg) := es.filterMap fun
  | .written _ io dest frame => if dest = addr then some (io,frame) else none
  | _ => none

/-- `down` is in flight to the node and `up` to the base; each answer goes with the io whose frame it answers, and the
call that yielded it. `calls` is what the node's handlers were called with, and for which io. -/
structure Radio where
  loop : Loop
  down : List (Ptr × BanoMsg)
  up : List (Ptr × HandlerCall × BanoMsg)
  calls : List (Ptr × HandlerCall)

/-- In `hear` the base reads an answer of the node, in `base` it does anything else. -/
inductive RadioLabel where
  | base (label : Label)
  | hear (label : Label) (i : Nat)
  | receive (i : Nat) (handlers : Handlers)
  | loseDown (i : Nat)
  | loseUp (i : Nat)
  | copyDown (i : Nat)
  | copyUp (i : Nat)

namespace Radio

/-- What the base writes for the node goes on the air. -/
def baseStep (linfo : LoopInfo) (fw : Firmware) (label : Label) (s : Radio) : Option Radio := do
  let loop ← Loop.step linfo label s.loop
  some { s with
    loop := loop
    down := s.down ++ sentTo fw.addr (loop.base.trace.drop s.loop.base.trace.length) }

def step (linfo : LoopInfo) (fw : Firmware) : RadioLabel → Radio → Option Radio
  | .base label, s => s.baseStep linfo fw label
  | .hear label i, s => do
    let ((_,_,answer),up) ← Lib.receive s.up i
    let (_,_,frame) ← label.frame s.loop
    if frame = answer then baseStep linfo fw label { s with up := up } else none
  | .receive i handlers, s => do
    let ((io,frame),down) ← Lib.receive s.down i
    let (call,answer) := fw.banoLoop handlers (fw.banoWaitEvent frame)
    let call ← call
    some { s with
      down := down
      calls := s.calls ++ [(io,call)]
      up := s.up ++ (answer.map fun answer => (io,call,answer)).toList }
  | .loseDown i, s => some { s with down := lose s.down i }
  | .loseUp i, s => some { s with up := lose s.up i }
  | .copyDown i, s => some { s with down := copy s.down i }
  | .copyUp i, s => some { s with up := copy s.up i }

end Radio

/-- The entries of the node's address are enciphered as the node is. -/
def Entered (fw : Firmware) (enc : Bool) (b : Base) : Prop :=
  ∀ p n, b.nodeMem.cell p = some n → n.addr = fw.addr → n.ciphers = enc

/-- A message that is no reply of the node. -/
def Foreign (fw : Firmware) (m : BanoMsg) : Prop := ¬(m.saddr = fw.addr ∧ m.has msgFlagReply = true)

/-- Replies of the node come from the node, and its handlers return REPLY and ERR bits only. -/
def RadioLabel.Allowed (fw : Firmware) (enc : Bool) : RadioLabel → Radio → Prop
  | .base label, s => Entered fw enc s.loop.base ∧
      ∀ socket env frame, label.frame s.loop = some (socket,env,frame) → Foreign fw (decMsg s.loop.base frame)
  | .hear .., s => Entered fw enc s.loop.base
  | .receive _ handlers, _ => handlers.Plain
  | _, _ => True

def Request.key : Request → U16
  | .get _ key _ => key
  | .set _ key _ _ _ => key

/-- The call that was made when the request was served, with this value if it is a GET. -/
def Request.served (val : U32) : Request → HandlerCall
  | .get _ key _ => .get key val
  | .set _ key val _ _ => .set key val

/-- A call that passes for that of a request: it is about its key and, where the request is a SET, its value. -/
structure HandlerCall.Serves (call : HandlerCall) (pend : BanoMsg) : Prop where
  key : call.key = pend.key
  val : pend.op = msgOpSet → call.val = pend.val

/-- The io is a request that was transmitted to the node. -/
structure Asked (fw : Firmware) (trace : List Event) (io : Ptr) (q : Request) : Prop where
  posted : ∃ node, .posted node io { q.io with node := some node } ∈ trace
  sent : ∃ frame, (io,frame) ∈ sentTo fw.addr trace

/-- What is in flight, and what the node was called with, belongs to requests of the base. -/
structure Relayed (fw : Firmware) (cipher : BanoCipher) (s : Radio) : Prop where
  origins : Origins s.loop.base
  cipher : s.loop.base.cipher = cipher
  down : ∀ e ∈ s.down, ∃ q, Asked fw s.loop.base.trace e.1 q ∧
    ∃ flags, fw.banoWaitEvent e.2 = { q.io.msg with flags := flags }
  up : ∀ e ∈ s.up, (e.1,e.2.1) ∈ s.calls ∧ ∃ flags, AnswersCall (decMsg s.loop.base e.2.2) fw.addr e.2.1 flags
  calls : ∀ e ∈ s.calls, ∃ q handlers, Asked fw s.loop.base.trace e.1 q ∧ e.2 = q.call handlers
  served : ∀ io val, .completed io ioErrSuccess val ∈ s.loop.base.trace →
    ∃ node r0, .posted node io r0 ∈ s.loop.base.trace ∧ (r0.waits = true → node < s.loop.base.nodeMem.next ∧
      ∀ n, s.loop.base.nodeMem.cell node = some n → n.addr = fw.addr →
        ∃ e ∈ s.calls, e.2.Serves r0.msg ∧ e.2.val = val)

@[simp] theorem sentTo_append (addr : U32) (es fs : List Event) :
    sentTo addr (es ++ fs) = sentTo addr es ++ sentTo addr fs :=
  List.filterMap_append

theorem mem_sentTo : (io,frame) ∈ sentTo addr es ↔ ∃ node, .written node io addr frame ∈ es := by
  constructor
  · intro member
    obtain ⟨e,listed,same⟩ := List.mem_filterMap.mp member
    cases e with
    | written node io' dest frame' =>
      simp only [Option.ite_none_right_eq_some,Option.some.injEq,Prod.mk.injEq] at same
      obtain ⟨rfl,rfl,rfl⟩ := same
      exact ⟨node,listed⟩
    | _ => exact nomatch same
  · rintro ⟨node,member⟩
    exact List.mem_filterMap.mpr ⟨_,member,by simp⟩

theorem Asked.append (asked : Asked fw trace io q) (es : List Event) : Asked fw (trace ++ es) io q := by
  obtain ⟨⟨node,posted⟩,frame,sent⟩ := asked
  refine ⟨⟨node,List.mem_append_left _ posted⟩,frame,?_⟩
  rw [sentTo_append]
  exact List.mem_append_left _ sent

theorem decMsg_same {b b' : Base} (same : b'.cipher = b.cipher) (m : BanoMsg) : decMsg b' m = decMsg b m := by
  rw [decMsg,decMsg,same]

theorem Paired.same {b b' : Base} (paired : Paired b fw enc) (same : b'.cipher = b.cipher) : Paired b' fw enc := by
  cases paired with
  | xtea cipher alg standard => exact .xtea (same.trans cipher) alg standard
  | clear alg => exact .clear alg

theorem AnswersCall.serves (answers : AnswersCall m addr call flags) (matched : m.answers pend = true) :
    call.Serves pend := by
  refine ⟨answers.key.symm.trans (answers_key matched).symm,fun set => ?_⟩
  rw [BanoMsg.answers,if_pos set,Bool.and_eq_true] at matched
  exact answers.val.symm.trans (of_decide_eq_true matched.1).symm

/-- What was heard is from the node that was found. -/
theorem heard_entry {s : Loop} {label : Label} (heard : label.heard s = some (node,m)) : ∃ socket env frame n,
    label.frame s = some (socket,env,frame) ∧ m = decMsg s.base frame ∧ s.base.nodeMem.cell node = some n ∧
    n.addr = m.saddr := by
  obtain ⟨⟨socket,env,frame⟩,read,heard⟩ := Option.bind_eq_some_iff.mp heard
  obtain ⟨found,search,heard⟩ := Option.bind_eq_some_iff.mp heard
  obtain ⟨node',here,heard⟩ := Option.bind_eq_some_iff.mp heard
  obtain ⟨rfl,rfl⟩ := Prod.mk.inj (Option.some.inj heard)
  have search' : findNodeByAddr s.base (decMsg s.base frame).saddr = some (some node') := here ▸ search
  obtain ⟨_,n,cell,addr⟩ := findNodeByAddr_mem search'
  exact ⟨socket,env,frame,n,read,rfl,cell,addr⟩

section

variable {s s' : Radio} {fw : Firmware} {cipher : BanoCipher}

/-- The calls that passed for those of the requests that completed. -/
theorem Relayed.served_step {b' : Loop} (relayed : Relayed fw cipher s)
    (taken : Loop.step linfo label s.loop = some b')
    (heard : ∀ node m, label.heard s.loop = some (node,m) → m.saddr = fw.addr → m.has msgFlagReply = true →
      ∃ e ∈ s.calls, ∃ flags, AnswersCall m fw.addr e.2 flags)
    (completed : .completed io ioErrSuccess val ∈ b'.base.trace) :
    ∃ node r0, .posted node io r0 ∈ b'.base.trace ∧ (r0.waits = true → node < b'.base.nodeMem.next ∧
      ∀ n, b'.base.nodeMem.cell node = some n → n.addr = fw.addr →
        ∃ e ∈ s.calls, e.2.Serves r0.msg ∧ e.2.val = val) := by
  obtain ⟨_,es,trace,told⟩ := step_tells relayed.origins taken
  have retires := step_retires taken
  rw [trace,List.mem_append] at completed
  rcases completed with early | late
  · obtain ⟨node,r0,posted,served⟩ := relayed.served io val early
    refine ⟨node,r0,trace ▸ List.mem_append_left _ posted,fun waits => ?_⟩
    obtain ⟨known,served⟩ := served waits
    refine ⟨Nat.lt_of_lt_of_le known retires.next,fun n' cell' addr => ?_⟩
    obtain ⟨n,cell⟩ := retires.known node n' known cell'
    exact served n cell ((step_wears taken cell cell').1.symm.trans addr)
  · have posted : ∀ {node r0}, Event.posted node io r0 ∈ s.loop.base.trace → .posted node io r0 ∈ b'.base.trace :=
      fun member => trace ▸ List.mem_append_left _ member
    rcases told _ late with quiet | _ | _ | ⟨_,_,mine,unacked⟩ | ⟨_,_,err⟩ | ⟨same,mine,_,reply,_,answers⟩
    · exact nomatch quiet
    · exact ⟨_,_,posted mine,fun waits => by simp [unacked] at waits⟩
    · exact (err rfl).elim
    · refine ⟨_,_,posted mine,fun _ => ?_⟩
      obtain ⟨_,_,_,n,_,_,cell,source⟩ := heard_entry same
      refine ⟨Nat.lt_of_lt_of_le (Heap.lt_next cell) retires.next,fun n' cell' addr => ?_⟩
      have here := source.symm.trans ((step_wears taken cell cell').1.symm.trans addr)
      obtain ⟨e,called,flags,answer⟩ := heard _ _ same here reply
      exact ⟨e,called,answer.serves answers,answer.val.symm⟩

theorem Relayed.baseStep (relayed : Relayed fw cipher s) (paired : Paired s.loop.base fw enc)
    (entered : Entered fw enc s.loop.base) (taken : s.baseStep linfo fw label = some s')
    (heard : ∀ node m, label.heard s.loop = some (node,m) → m.saddr = fw.addr → m.has msgFlagReply = true →
      ∃ e ∈ s.calls, ∃ flags, AnswersCall m fw.addr e.2 flags) : Relayed fw cipher s' := by
  obtain ⟨b',step,rfl⟩ := bind_some.mp taken
  obtain ⟨origins,es,trace,told⟩ := step_tells relayed.origins step
  have asked : ∀ {io q}, Asked fw s.loop.base.trace io q → Asked fw b'.base.trace io q := fun before =>
    trace ▸ before.append es
  refine ⟨origins,(step_cipher step).trans relayed.cipher,fun e member => ?_,fun e member => ?_,fun e member => ?_,
    fun io val completed => relayed.served_step step heard completed⟩
  · rw [trace,List.drop_left] at member
    rcases List.mem_append.mp member with early | late
    · obtain ⟨q,before,read⟩ := relayed.down e early
      exact ⟨q,asked before,read⟩
    · obtain ⟨node,written⟩ := mem_sentTo.mp late
      obtain ⟨n,r0,cell,mine,addr,frame⟩ := (told _ written).origin
      obtain ⟨q,rfl⟩ := relayed.origins.request _ _ _ mine
      obtain ⟨flags,read⟩ := paired.banoWaitEvent (entered _ n cell addr.symm) q.io.msg
      have sent : (e.1,e.2) ∈ sentTo fw.addr b'.base.trace := by
        rw [trace,sentTo_append]
        exact List.mem_append_right _ late
      have read' : fw.banoWaitEvent e.2 = { q.io.msg with flags := flags } := frame ▸ read
      exact ⟨q,⟨⟨node,trace ▸ List.mem_append_left _ mine⟩,e.2,sent⟩,flags,read'⟩
  · obtain ⟨called,flags,answers⟩ := relayed.up e member
    refine ⟨called,flags,?_⟩
    rw [decMsg_same (step_cipher step)]
    exact answers
  · obtain ⟨q,handlers,before,call⟩ := relayed.calls e member
    exact ⟨q,handlers,asked before,call⟩

/-- Frames are lost, copied or reordered. -/
theorem Relayed.air (relayed : Relayed fw cipher s) (down : ∀ e ∈ down', e ∈ s.down) (up : ∀ e ∈ up', e ∈ s.up) :
    Relayed fw cipher { s with down := down', up := up' } :=
  ⟨relayed.origins,relayed.cipher,fun e member => relayed.down e (down e member),
    fun e member => relayed.up e (up e member),
    relayed.calls,relayed.served⟩

theorem Relayed.hear (relayed : Relayed fw cipher s) (paired : Paired s.loop.base fw enc)
    (entered : Entered fw enc s.loop.base) (taken : Radio.step linfo fw (.hear label i) s = some s') :
    Relayed fw cipher s' := by
  obtain ⟨⟨⟨io,call,answer⟩,up⟩,received,taken⟩ := Option.bind_eq_some_iff.mp taken
  obtain ⟨⟨socket,env,frame⟩,read,taken⟩ := Option.bind_eq_some_iff.mp taken
  obtain ⟨inFlight,rest⟩ := mem_receive received
  simp only at taken
  split at taken
  · next same =>
    have aired : Relayed fw cipher { s with up := up } := relayed.air (fun _ => id) rest
    apply aired.baseStep paired entered taken
    intro node m heard addr reply
    obtain ⟨_,_,frame',_,read',rfl,_⟩ := heard_entry heard
    obtain ⟨_,_,rfl⟩ : socket = _ ∧ env = _ ∧ frame = frame' := by simpa using read.symm.trans read'
    obtain ⟨called,flags,answers⟩ := relayed.up _ inFlight
    exact ⟨(io,call),called,flags,same ▸ answers⟩
  · exact nomatch taken

theorem Relayed.receive (relayed : Relayed fw cipher s) (paired : Paired s.loop.base fw enc) (plain : handlers.Plain)
    (taken : Radio.step linfo fw (.receive i handlers) s = some s') : Relayed fw cipher s' := by
  obtain ⟨⟨⟨io,frame⟩,down⟩,received,taken⟩ := Option.bind_eq_some_iff.mp taken
  obtain ⟨inFlight,rest⟩ := mem_receive received
  obtain ⟨q,asked,flags,read⟩ := relayed.down _ inFlight
  have read' : fw.banoWaitEvent frame = { q.io.msg with flags := flags } := read
  obtain ⟨call,called,taken⟩ := Option.bind_eq_some_iff.mp taken
  obtain rfl := Option.some.inj taken
  rw [read'] at called
  obtain rfl := Option.some.inj (called.symm.trans (q.called fw handlers flags))
  refine ⟨relayed.origins,relayed.cipher,fun e member => relayed.down e (rest e member),fun e member => ?_,
    fun e member => ?_,
    fun io val completed => ?_⟩
  · rcases List.mem_append.mp member with early | late
    · obtain ⟨before,answers⟩ := relayed.up e early
      exact ⟨List.mem_append_left _ before,answers⟩
    · obtain ⟨answer,answered,rfl⟩ := Option.map_eq_some_iff.mp (Option.mem_toList.mp late)
      rw [read'] at answered
      exact ⟨by simp,_,paired.answers plain q flags answered⟩
  · rcases List.mem_append.mp member with early | late
    · exact relayed.calls e early
    · obtain rfl := List.mem_singleton.mp late
      exact ⟨q,handlers,asked,rfl⟩
  · obtain ⟨node,r0,posted,served⟩ := relayed.served io val completed
    refine ⟨node,r0,posted,fun waits => ⟨(served waits).1,fun n cell addr => ?_⟩⟩
    obtain ⟨e,member,serves⟩ := (served waits).2 n cell addr
    exact ⟨e,List.mem_append_left _ member,serves⟩

theorem Relayed.step (relayed : Relayed fw cipher s) (paired : Paired s.loop.base fw enc)
    (allowed : label.Allowed fw enc s)
    (taken : Radio.step linfo fw label s = some s') : Relayed fw cipher s' := by
  cases label with
  | base label =>
    apply relayed.baseStep paired allowed.1 taken
    intro node m heard addr reply
    obtain ⟨socket,env,frame,_,read,rfl,_⟩ := heard_entry heard
    exact (allowed.2 socket env frame read ⟨addr,reply⟩).elim
  | hear label i => exact relayed.hear paired allowed taken
  | receive i handlers => exact relayed.receive paired allowed taken
  | loseDown i => exact Option.some.inj taken ▸ relayed.air (fun _ => mem_lose) fun _ => id
  | loseUp i => exact Option.some.inj taken ▸ relayed.air (fun _ => id) fun _ => mem_lose
  | copyDown i => exact Option.some.inj taken ▸ relayed.air (fun _ => mem_copy) fun _ => id
  | copyUp i => exact Option.some.inj taken ▸ relayed.air (fun _ => id) fun _ => mem_copy

end

/-- Nothing was sent yet. -/
def silentRadio (b : Base) : Radio := ⟨⟨b,none,.idle⟩,[],[],[]⟩

theorem Idle.relayed (idle : Idle b) (fw : Firmware) : Relayed fw b.cipher (silentRadio b) := by
  refine ⟨idle.origins,rfl,?_,?_,?_,?_⟩ <;> simp [silentRadio,idle.trace]

theorem reach_relayed (idle : Idle b) (paired : Paired b fw enc)
    (reach : Reach (Radio.step linfo fw) (RadioLabel.Allowed fw enc) (silentRadio b) labels s) :
    Relayed fw b.cipher s :=
  reach.invariant (Relayed fw b.cipher) (idle.relayed fw) fun _ _ _ relayed allowed taken =>
    relayed.step (paired.same relayed.cipher) allowed taken

theorem Request.call_key (q : Request) (handlers : Handlers) : (q.call handlers).key = q.key := by cases q <;> rfl

/-- The call for a request is known by the request and the value. -/
theorem Request.call_served {q q' : Request} (same : q'.io.msg = q.io.msg) (val : (q'.call handlers).val = v) :
    q'.call handlers = q.served v := by
  have op := congrArg BanoMsg.op same
  have key := congrArg BanoMsg.key same
  cases q with
  | get junk k fn =>
    cases q' with
    | get junk' k' fn' =>
      obtain rfl : k' = k := key
      obtain rfl : (handlers.get k').2 = v := val
      rfl
    | set junk' k' v' isAck' fn' => cases isAck' <;> exact absurd op (show ¬msgOpSet = msgOpGet by decide)
  | set junk k v' isAck fn =>
    cases q' with
    | get junk' k' fn' => cases isAck <;> exact absurd op (show ¬msgOpGet = msgOpSet by decide)
    | set junk' k' v'' isAck' fn' =>
      have same' : k' = k ∧ v'' = v' := by cases isAck <;> cases isAck' <;> exact ⟨key,congrArg BanoMsg.val same⟩
      obtain ⟨rfl,rfl⟩ := same'
      rfl

/-- Some call of the node passed for that of an io that completed with success. -/
theorem Relayed.passed {q : Request} (relayed : Relayed fw how s)
    (posted : .posted node io { q.io with node := some node } ∈ s.loop.base.trace) (waits : q.io.waits = true)
    (completed : .completed io ioErrSuccess val ∈ s.loop.base.trace) (cell : s.loop.base.nodeMem.cell node = some n)
    (addr : n.addr = fw.addr) : ∃ io' q' handlers, Asked fw s.loop.base.trace io' q' ∧
    (io',q'.call handlers) ∈ s.calls ∧
      (q'.call handlers).Serves q.io.msg ∧ (q'.call handlers).val = val := by
  obtain ⟨node',r0,mine,served⟩ := relayed.served io val completed
  obtain ⟨rfl,rfl⟩ := relayed.origins.once node io _ node' r0 posted mine
  obtain ⟨⟨io',call⟩,called,serves,value⟩ := (served waits).2 n cell addr
  obtain ⟨q',handlers,asked,rfl⟩ := relayed.calls _ called
  exact ⟨io',q',handlers,asked,called,serves,value⟩

/-- An io that completes with success was served by a call that the node made for an
io of the same key, itself if no other was transmitted to the node. -/
theorem reply_serves {q : Request} (idle : Idle b) (paired : Paired b fw enc)
    (reach : Reach (Radio.step linfo fw) (RadioLabel.Allowed fw enc) (silentRadio b) labels s)
    (posted : .posted node io { q.io with node := some node } ∈ s.loop.base.trace) (waits : q.io.waits = true)
    (completed : .completed io ioErrSuccess val ∈ s.loop.base.trace) (cell : s.loop.base.nodeMem.cell node = some n)
    (addr : n.addr = fw.addr) :
    (∃ io' q' handlers, Asked fw s.loop.base.trace io' q' ∧ q'.key = q.key ∧ (io',q'.call handlers) ∈ s.calls ∧
      (q'.call handlers).Serves q.io.msg ∧ (q'.call handlers).val = val) ∧
    ((∀ io' q', Asked fw s.loop.base.trace io' q' → q'.key = q.key → io' = io) → (io,q.served val) ∈ s.calls) := by
  have relayed := reach_relayed idle paired reach
  obtain ⟨io',q',handlers,asked,called,serves,value⟩ := relayed.passed posted waits completed cell addr
  have key : q'.key = q.key := by
    rw [← q'.call_key handlers,serves.key]
    cases q with
    | get junk key fn => rfl
    | set junk key val isAck fn => cases isAck <;> rfl
  refine ⟨⟨io',q',handlers,asked,key,called,serves,value⟩,fun only => ?_⟩
  obtain rfl := only io' q' asked key
  obtain ⟨dest,posted'⟩ := asked.posted
  obtain ⟨_,same⟩ := relayed.origins.once _ _ _ _ _ posted posted'
  have msg := congrArg BanoIo.msg same
  have msg' : q'.io.msg = q.io.msg := msg
  exact Request.call_served msg' value ▸ called

/-- What is allowed, as far as it can be tested. -/
def RadioLabel.check (fw : Firmware) (enc : Bool) : RadioLabel → Radio → Bool
  | .base label, s => entered s && (label.frame s.loop).all fun (_,_,frame) =>
      let m := decMsg s.loop.base frame
      m.saddr ≠ fw.addr || !m.has msgFlagReply
  | .hear .., s => entered s
  | _, _ => true
where
  entered (s : Radio) : Bool := (List.range s.loop.base.nodeMem.next).all fun p =>
    (s.loop.base.nodeMem.cell p).all fun n => n.addr ≠ fw.addr || n.ciphers = enc

def RadioLabel.Plain : RadioLabel → Prop
  | .receive _ handlers => handlers.Plain
  | _ => True

theorem entered_check {s : Radio} (passed : RadioLabel.check.entered fw enc s = true) :
    Entered fw enc s.loop.base := by
  intro p n cell addr
  have here := List.all_eq_true.mp passed p (List.mem_range.mpr (Heap.lt_next cell))
  simpa [cell,addr] using here

theorem RadioLabel.check_allowed {label : RadioLabel} (plain : label.Plain) (s : Radio)
    (passed : label.check fw enc s = true) :
    label.Allowed fw enc s := by
  cases label with
  | base label =>
    obtain ⟨entered,foreign⟩ := Bool.and_eq_true_iff.mp passed
    refine ⟨entered_check entered,fun socket env frame read ⟨addr,reply⟩ => ?_⟩
    simp [read,addr,reply] at foreign
  | hear label i => exact entered_check passed
  | receive i handlers => exact plain
  | loseDown | loseUp | copyDown | copyUp => trivial

/-- The node of `twoSockets`. -/
def bareFirmware : Firmware := ⟨0xa5a5a5a5,.none,0,standardLib⟩

/-- The answer of a node whose value is 7. -/
def sevenReply : BanoMsg := ⟨msgOpSet,msgFlagReply,0xa5a5a5a5,0,0,1,7⟩

/-- A GET is answered. -/
def answerRun : List RadioLabel := [.base (.post getPost),.base (.write 0),.base (.postIo bareWrite),
    .receive 0 sevenHandlers,
  .copyUp 0,.hear (.read 1 bareEnv (.msg sevenReply)) 0]

/-- The next GET completes with a copy of that answer. -/
def staleRun : List RadioLabel := answerRun ++ [.base (.post getPost),.base (.write 0),.base (.postIo bareWrite),
  .hear (.read 1 bareEnv (.msg sevenReply)) 0]

theorem answerRun_plain : ∀ label ∈ answerRun, label.Plain := by
  simp [answerRun,RadioLabel.Plain,sevenHandlers_plain]

theorem reply_serves_answered : ∃ s, runChecked (Radio.step bareLoop bareFirmware)
    (RadioLabel.check bareFirmware false) answerRun
    (silentRadio twoSockets) = some s ∧ .completed 0 ioErrSuccess 7 ∈ s.loop.base.trace ∧ (0,.get 1 7) ∈ s.calls := by
  obtain ⟨s,ran,view⟩ : ∃ s, runChecked (Radio.step bareLoop bareFirmware)
    (RadioLabel.check bareFirmware false) answerRun
      (silentRadio twoSockets) = some s ∧ ((s.loop.base.nodeMem.cell 0).map BanoNode.addr,s.loop.base.trace) =
        (some 0xa5a5a5a5,[.posted 0 0 { getPost.request.io with node := some 0 },
          .written 0 0 0xa5a5a5a5 getPost.request.io.msg,.answered 0 sevenReply,
            .completed 0 ioErrSuccess 7,.released 0]) :=
    Option.map_eq_some_iff.mp rfl
  obtain ⟨entry,trace⟩ := Prod.mk.inj view
  obtain ⟨n,cell,addr⟩ := Option.map_eq_some_iff.mp entry
  have reach := Reach.of_checked (fun label member s => label.check_allowed (answerRun_plain label member) s) ran
  have completed : .completed 0 ioErrSuccess 7 ∈ s.loop.base.trace := by simp [trace]
  have posted : .posted 0 0 { getPost.request.io with node := some 0 } ∈ s.loop.base.trace := by simp [trace]
  have serves := reply_serves twoSockets_idle (.clear rfl) reach posted rfl completed cell addr
  refine ⟨s,ran,completed,serves.2 fun io' q' asked _ => ?_⟩
  obtain ⟨node,mine⟩ := asked.posted
  rw [trace] at mine
  simp at mine
  exact mine.2.1

theorem reply_stale : ¬∀ (linfo : LoopInfo) (b : Base) (fw : Firmware) (enc : Bool)
    (labels : List RadioLabel) (s : Radio)
    (node io : Ptr) (q : Request) (val : U32) (n : BanoNode), Idle b → Paired b fw enc →
    Reach (Radio.step linfo fw) (RadioLabel.Allowed fw enc) (silentRadio b) labels s →
    .posted node io { q.io with node := some node } ∈ s.loop.base.trace → q.io.waits = true →
    .completed io ioErrSuccess val ∈ s.loop.base.trace → s.loop.base.nodeMem.cell node = some n → n.addr = fw.addr →
    (io,q.served val) ∈ s.calls := by
  intro serves
  obtain ⟨s,ran,view⟩ : ∃ s, runChecked (Radio.step bareLoop bareFirmware)
    (RadioLabel.check bareFirmware false) staleRun
      (silentRadio twoSockets) = some s ∧ (s.calls,(s.loop.base.nodeMem.cell 0).map BanoNode.addr,
        decide (.posted 0 1 { getPost.request.io with node := some 0 } ∈ s.loop.base.trace),
        decide (.completed 1 ioErrSuccess 7 ∈ s.loop.base.trace)) =
      ([(0,.get 1 7)],some 0xa5a5a5a5,true,true) :=
    Option.map_eq_some_iff.mp rfl
  simp only [Prod.mk.injEq,decide_eq_true_iff] at view
  obtain ⟨calls,entry,posted,completed⟩ := view
  obtain ⟨n,cell,addr⟩ := Option.map_eq_some_iff.mp entry
  have plain : ∀ label ∈ staleRun, label.Plain := by simp [staleRun,answerRun,RadioLabel.Plain,sevenHandlers_plain]
  have reach := Reach.of_checked (fun label member s => label.check_allowed (plain label member) s) ran
  have served := serves bareLoop twoSockets bareFirmware false staleRun s 0 1 getPost.request 7 n twoSockets_idle
    (.clear rfl) reach posted rfl completed cell addr
  simp [calls] at served

end Bano
