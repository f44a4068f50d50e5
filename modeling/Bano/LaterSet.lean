import Bano.Radio

/-! Which of several SETs of a key the node executes last, where what is transmitted to it may be lost, but is not
overtaken. -/
namespace Bano

open Lib

/-- The ios of the transmissions to the node of this address. -/
def transmitted (addr : U32) (es : List Event) : List Ptr := (sentTo addr es).map Prod.fst

/-- What goes to the node is neither copied nor overtaken. -/
def RadioLabel.InTurn : RadioLabel → Prop
  | .receive i _ => i = 0
  | .copyDown _ => False
  | _ => True

def HandlerCall.setVal (key : U16) : HandlerCall → Option U32
  | .set key' val => if key' = key then some val else none
  | .get .. => none

def Request.setVal (key : U16) : Request → Option U32
  | .set _ key' val _ _ => if key' = key then some val else none
  | .get .. => none

/-- The value of the last call of the set handler for a key. -/
def lastSet (key : U16) (calls : List (Ptr × HandlerCall)) : Option U32 :=
  (calls.filterMap fun e => e.2.setVal key).getLast?

/-- The node executes what is transmitted to it in the order of the transmissions. -/
def Executed (fw : Firmware) (s : Radio) : Prop :=
  InOrder (transmitted fw.addr s.loop.base.trace) (s.calls.map Prod.fst) (s.down.map Prod.fst)

theorem Request.call_setVal (q : Request) (handlers : Handlers) (k : U16) :
    (q.call handlers).setVal k = q.setVal k := by
  cases q <;> rfl

theorem Request.setVal_msg {q : Request} (sets : q.setVal k = some v) : q.io.msg.val = v := by
  cases q with
  | get junk k' fn => exact nomatch sets
  | set junk k' v' isAck fn =>
    have same := Option.some.inj (Option.ite_none_right_eq_some.mp sets).2
    cases isAck <;> exact same

theorem Executed.baseStep {s s' : Radio} (executed : Executed fw s) (origins : Origins s.loop.base)
    (taken : s.baseStep linfo fw label = some s') : Executed fw s' := by
  obtain ⟨b',step,rfl⟩ := bind_some.mp taken
  obtain ⟨_,es,trace,_⟩ := step_tells origins step
  have sent := executed.send (transmitted fw.addr es)
  rw [Executed,trace,List.drop_left,transmitted,sentTo_append,List.map_append,List.map_append]
  exact sent

theorem Executed.step {s s' : Radio} (executed : Executed fw s) (origins : Origins s.loop.base)
    (inTurn : label.InTurn)
    (taken : Radio.step linfo fw label s = some s') : Executed fw s' := by
  cases label with
  | base label => exact executed.baseStep origins taken
  | hear label i =>
    obtain ⟨⟨⟨io,call,answer⟩,up⟩,received,taken⟩ := Option.bind_eq_some_iff.mp taken
    obtain ⟨⟨socket,env,frame⟩,read,taken⟩ := Option.bind_eq_some_iff.mp taken
    simp only at taken
    split at taken
    · have before : Executed fw { s with up := up } := executed
      exact before.baseStep origins taken
    · cases taken
  | receive i handlers =>
    obtain rfl : i = 0 := inTurn
    obtain ⟨⟨⟨io,frame⟩,down⟩,received,taken⟩ := Option.bind_eq_some_iff.mp taken
    obtain ⟨call,called,taken⟩ := Option.bind_eq_some_iff.mp taken
    obtain rfl := Option.some.inj taken
    rw [Executed,receive_head received] at executed
    have received := InOrder.receive executed
    rw [Executed,List.map_append]
    exact received
  | loseDown i =>
    obtain rfl := Option.some.inj taken
    exact executed.fewer ((List.eraseIdx_sublist s.down i).map _)
  | copyDown i => exact inTurn.elim
  | loseUp i | copyUp i => exact Option.some.inj taken ▸ executed

/-- What is allowed on a radio that does not overtake. -/
def RadioLabel.AllowedInTurn (fw : Firmware) (enc : Bool) (label : RadioLabel) (s : Radio) : Prop :=
  label.Allowed fw enc s ∧ label.InTurn

theorem reach_executed (idle : Idle b) (paired : Paired b fw enc)
    (reach : Reach (Radio.step linfo fw) (RadioLabel.AllowedInTurn fw enc) (silentRadio b) labels s) :
    Relayed fw b.cipher s ∧ Executed fw s := by
  refine reach.invariant (fun s => Relayed fw b.cipher s ∧ Executed fw s) ⟨idle.relayed fw,?_⟩ ?_
  · simp [Executed,silentRadio,InOrder]
  · intro label u v before allowed taken
    exact ⟨before.1.step (paired.same before.1.cipher) allowed.1 taken,before.2.step before.1.origins allowed.2 taken⟩

/-- Where no SET of another value is transmitted after one of this value, a call with this value is the last. -/
theorem lastSet_of_called {s : Radio} (relayed : Relayed fw how s) (executed : Executed fw s)
    (called : (io,.set key val) ∈ s.calls)
    (order : ∀ io' io'' q' q'' val', Asked fw s.loop.base.trace io' q' → Asked fw s.loop.base.trace io'' q'' →
      q'.setVal key = some val → q''.setVal key = some val' → val' ≠ val →
      ¬[io',io''].Sublist (transmitted fw.addr s.loop.base.trace)) : lastSet key s.calls = some val := by
  obtain ⟨front,back,split⟩ := List.append_of_mem called
  obtain ⟨q,handlers,asked,call⟩ := relayed.calls _ called
  have sets : q.setVal key = some val := by
    rw [← q.call_setVal handlers,← call]
    exact if_pos rfl
  have later : ∀ v ∈ back.filterMap (fun e => e.2.setVal key), v = val := by
    intro v member
    obtain ⟨⟨io',call'⟩,inBack,sets'⟩ := List.mem_filterMap.mp member
    by_contra other
    obtain ⟨q',handlers',asked',rfl⟩ := relayed.calls (io',call') (split ▸ by simp [inBack])
    have never := order io io' q q' v asked asked' sets (q'.call_setVal handlers' key ▸ sets') other
    rw [Executed,split,List.map_append,List.map_cons] at executed
    exact executed.never never (List.mem_map_of_mem (f := Prod.fst) inBack)
  have here : (HandlerCall.set key val).setVal key = some val := if_pos rfl
  have vals : s.calls.filterMap (fun e => e.2.setVal key) = front.filterMap (fun e => e.2.setVal key) ++
      val :: back.filterMap (fun e => e.2.setVal key) := by simp [split,here]
  rw [lastSet,vals]
  exact getLast?_of_all later

/-- A SET that completed with success left its value with the node, where no SET of
another value was transmitted after one of that value, for the first time or again, and
the get handler has yielded that value only once it was set. -/
theorem later_set_wins {q : Request} (idle : Idle b) (paired : Paired b fw enc)
    (reach : Reach (Radio.step linfo fw) (RadioLabel.AllowedInTurn fw enc) (silentRadio b) labels s)
    (posted : .posted node io { q.io with node := some node } ∈ s.loop.base.trace) (waits : q.io.waits = true)
    (sets : q.setVal key = some val) (completed : .completed io ioErrSuccess got ∈ s.loop.base.trace)
    (cell : s.loop.base.nodeMem.cell node = some n) (addr : n.addr = fw.addr)
    (order : ∀ io' io'' q' q'' val', Asked fw s.loop.base.trace io' q' → Asked fw s.loop.base.trace io'' q'' →
      q'.setVal key = some val → q''.setVal key = some val' → val' ≠ val →
      ¬[io',io''].Sublist (transmitted fw.addr s.loop.base.trace))
    (gets : ∀ e ∈ s.calls, e.2 = .get key val → ∃ e' ∈ s.calls, e'.2 = .set key val) :
    lastSet key s.calls = some val := by
  obtain ⟨relayed,executed⟩ := reach_executed idle paired reach
  obtain ⟨io',q',handlers,asked,called,serves,_⟩ := relayed.passed posted waits completed cell addr
  obtain ⟨key',val'⟩ : (q'.call handlers).key = key ∧ (q'.call handlers).val = val := by
    cases q with
    | get junk k fn => exact nomatch sets
    | set junk k v isAck fn =>
      obtain ⟨rfl,same⟩ := Option.ite_none_right_eq_some.mp sets
      obtain rfl := Option.some.inj same
      cases isAck with
      | false => exact absurd waits (by simp [Request.io,banoAllocSetIo,banoInitCommonIo,BanoIo.waits])
      | true => exact ⟨serves.key,serves.val rfl⟩
  cases call : q'.call handlers with
  | set k v =>
    rw [call] at called key' val'
    obtain ⟨rfl,rfl⟩ : k = key ∧ v = val := ⟨key',val'⟩
    exact lastSet_of_called relayed executed called order
  | get k v =>
    rw [call] at called key' val'
    obtain ⟨rfl,rfl⟩ : k = key ∧ v = val := ⟨key',val'⟩
    obtain ⟨⟨io'',call'⟩,member,rfl⟩ := gets _ called rfl
    exact lastSet_of_called relayed executed member order

def setAcked (val : U32) : Post := ⟨.set junkIo 1 val true (some 0),0,true⟩

def ackOf (val : U32) : BanoMsg := { sevenReply with val := val }

/-- Two SETs are posted, written, and executed. The reply to the first is lost, and the second is answered. -/
def orderlyRun : List RadioLabel := [.base (.post (setAcked 5)),.base (.post (setAcked 7)),.base (.write 0),
  .base (.postIo bareWrite),.base (.postIo bareWrite),.receive 0 sevenHandlers,.loseUp 0,.receive 0 sevenHandlers,
  .hear (.read 1 bareEnv (.msg (ackOf 7))) 0]

theorem later_set_wins_orderly : ∃ s, runChecked (Radio.step bareLoop bareFirmware)
    (RadioLabel.check bareFirmware false) orderlyRun
    (silentRadio twoSockets) = some s ∧ .completed 1 ioErrSuccess 7 ∈ s.loop.base.trace ∧
    lastSet 1 s.calls = some 7 := by
  obtain ⟨s,ran,view⟩ : ∃ s, runChecked (Radio.step bareLoop bareFirmware)
    (RadioLabel.check bareFirmware false) orderlyRun
      (silentRadio twoSockets) = some s ∧ ((s.loop.base.nodeMem.cell 0).map BanoNode.addr,s.calls,s.loop.base.trace) =
      (some 0xa5a5a5a5,[(0,.set 1 5),(1,.set 1 7)],[.posted 0 0 { (setAcked 5).request.io with node := some 0 },
        .posted 0 1 { (setAcked 7).request.io with node := some 0 },
        .written 0 0 0xa5a5a5a5 (setAcked 5).request.io.msg,.written 0 1 0xa5a5a5a5 (setAcked 7).request.io.msg,
        .answered 1 (ackOf 7),.completed 1 ioErrSuccess 7,.released 1]) :=
    Option.map_eq_some_iff.mp rfl
  simp only [Prod.mk.injEq] at view
  obtain ⟨entry,calls,trace⟩ := view
  obtain ⟨n,cell,addr⟩ := Option.map_eq_some_iff.mp entry
  have allowed : ∀ label ∈ orderlyRun, label.Plain ∧ label.InTurn := by
    simp [orderlyRun,RadioLabel.Plain,RadioLabel.InTurn,sevenHandlers_plain]
  have reach := Reach.of_checked (fun label member s passed =>
    (⟨label.check_allowed (allowed label member).1 s passed,(allowed label member).2⟩ : label.AllowedInTurn
      bareFirmware false s)) ran
  have posted : .posted 0 1 { (setAcked 7).request.io with node := some 0 } ∈ s.loop.base.trace := by simp [trace]
  have completed : .completed 1 ioErrSuccess 7 ∈ s.loop.base.trace := by simp [trace]
  have asks : ∀ {io q}, Asked bareFirmware s.loop.base.trace io q → (io = 0 ∧ q.io.msg.val = 5) ∨
      (io = 1 ∧ q.io.msg.val = 7) := by
    intro io q asked
    obtain ⟨node,mine⟩ := asked.posted
    simp only [trace,List.mem_cons,Event.posted.injEq,reduceCtorEq,List.not_mem_nil,or_false] at mine
    rcases mine with ⟨_,rfl,same⟩ | ⟨_,rfl,same⟩
    · exact .inl ⟨rfl,congrArg (fun r => r.msg.val) same⟩
    · exact .inr ⟨rfl,congrArg (fun r => r.msg.val) same⟩
  have sets : (setAcked 7).request.setVal 1 = some 7 := rfl
  refine ⟨s,ran,completed,later_set_wins twoSockets_idle (.clear rfl) reach posted rfl sets completed cell addr ?_ ?_⟩
  · intro io' io'' q' q'' val' asked asked' sets' sets'' other
    rcases asks asked with ⟨_,five⟩ | ⟨rfl,_⟩
    · exact absurd (five.symm.trans (Request.setVal_msg sets')) (by decide)
    · rcases asks asked' with ⟨rfl,_⟩ | ⟨_,seven⟩
      · rw [trace]
        decide
      · exact absurd ((Request.setVal_msg sets'').symm.trans seven) other
  · simp [calls]

/-- The first SET is transmitted again, executed, and answered. -/
def overtakenRun : List RadioLabel := orderlyRun ++ [.base (.select false ⟨0,0⟩ retryEnv),.base (.write 0),
  .base (.postIo bareWrite),.receive 0 sevenHandlers,.hear (.read 1 bareEnv (.msg (ackOf 5))) 0]

theorem later_set_overtaken : ¬∀ (linfo : LoopInfo) (b : Base) (fw : Firmware) (enc : Bool)
    (labels : List RadioLabel) (s : Radio)
    (node io io' : Ptr) (q q' : Request) (key : U16) (val val' : U32) (n : BanoNode), Idle b → Paired b fw enc →
    Reach (Radio.step linfo fw) (RadioLabel.AllowedInTurn fw enc) (silentRadio b) labels s →
    [.posted node io { q.io with node := some node },.posted node io' { q'.io with node := some node }].Sublist
      s.loop.base.trace → q.io.waits = true → q'.io.waits = true → q.setVal key = some val →
      q'.setVal key = some val' →
    .completed io ioErrSuccess val ∈ s.loop.base.trace → .completed io' ioErrSuccess val' ∈ s.loop.base.trace →
    s.loop.base.nodeMem.cell node = some n → n.addr = fw.addr → s.down = [] → s.up = [] →
    lastSet key s.calls = some val' := by
  intro wins
  obtain ⟨s,ran,view⟩ : ∃ s, runChecked (Radio.step bareLoop bareFirmware)
    (RadioLabel.check bareFirmware false) overtakenRun
      (silentRadio twoSockets) = some s ∧ ((s.loop.base.nodeMem.cell 0).map BanoNode.addr,s.down.length,s.up.length,
        lastSet 1 s.calls,decide (.completed 0 ioErrSuccess 5 ∈ s.loop.base.trace),
        decide (.completed 1 ioErrSuccess 7 ∈ s.loop.base.trace),s.loop.base.trace.take 2) =
      (some 0xa5a5a5a5,0,0,some 5,true,true,[.posted 0 0 { (setAcked 5).request.io with node := some 0 },
        .posted 0 1 { (setAcked 7).request.io with node := some 0 }]) :=
    Option.map_eq_some_iff.mp rfl
  simp only [Prod.mk.injEq,decide_eq_true_iff,List.length_eq_zero_iff] at view
  obtain ⟨entry,down,up,last,first,second,front⟩ := view
  obtain ⟨n,cell,addr⟩ := Option.map_eq_some_iff.mp entry
  have allowed : ∀ label ∈ overtakenRun, label.Plain ∧ label.InTurn := by
    simp [overtakenRun,orderlyRun,RadioLabel.Plain,RadioLabel.InTurn,sevenHandlers_plain]
  have reach := Reach.of_checked (fun label member s passed =>
    (⟨label.check_allowed (allowed label member).1 s passed,(allowed label member).2⟩ : label.AllowedInTurn
      bareFirmware false s)) ran
  have won := wins bareLoop twoSockets bareFirmware false overtakenRun s 0 0 1 (setAcked 5).request
    (setAcked 7).request 1 5 7 n
    twoSockets_idle (.clear rfl) reach (front ▸ List.take_sublist 2 s.loop.base.trace) rfl rfl rfl rfl
      first second cell addr
    down up
  exact absurd (last.symm.trans won) (by decide)

end Bano
