import Bano.ClearFrames
import Bano.Firmware
import Bano.Origins
import Bano.Progress

/-! A request from end to end: what post_io writes is what the node's handler is called with, and what the node sends
back completes the io. -/
namespace Bano

open Lib

/-- The base and the node both use xtea with one key and their frames are enciphered, or the node uses no cipher and
they are not. -/
inductive Paired (b : Base) (fw : Firmware) : Bool → Prop where
  | xtea : b.cipher = ⟨.xtea,fw.key⟩ → fw.alg = .xtea → fw.lib.Standard → Paired b fw true
  | clear : fw.alg = .none → Paired b fw false

/-- The bits that a handler may return. -/
def handlerFlags : BitVec 8 := 3

/-- Handlers that return REPLY and ERR bits only. -/
structure Handlers.Plain (handlers : Handlers) : Prop where
  set : ∀ key val, handlers.set key val &&& ~~~handlerFlags = 0
  get : ∀ key, (handlers.get key).1 &&& ~~~handlerFlags = 0

/-- The call that a request asks for. -/
def Request.call (handlers : Handlers) : Request → HandlerCall
  | .get _ key _ => .get key (handlers.get key).2
  | .set _ key val _ _ => .set key val

def HandlerCall.key : HandlerCall → U16
  | .set key _ => key
  | .get key _ => key

def HandlerCall.val : HandlerCall → U32
  | .set _ val => val
  | .get _ val => val

/-- The flags that the handler returns. -/
def HandlerCall.flags (handlers : Handlers) : HandlerCall → BitVec 8
  | .set key val => handlers.set key val
  | .get key _ => (handlers.get key).1

/-- What the flags of a handler say of the request. -/
def replyErr (flags : BitVec 8) : U32 := if flags &&& msgFlagErr.setWidth 8 ≠ 0 then ioErrFailure else ioErrSuccess

/-- A message that the base reads as the answer to a call whose handler returned `flags`. -/
structure AnswersCall (m : BanoMsg) (addr : U32) (call : HandlerCall) (flags : BitVec 8) : Prop where
  op : m.op = msgOpSet
  saddr : m.saddr = addr
  key : m.key = call.key
  val : m.val = call.val
  reply : m.has msgFlagReply = true
  err : m.has msgFlagErr = decide (flags &&& msgFlagErr.setWidth 8 ≠ 0)

section

variable {b : Base} {fw : Firmware} {enc : Bool}

/-- The node reads what the base wrote. -/
theorem Paired.banoWaitEvent (paired : Paired b fw enc) (ciphers : n.ciphers = enc) (m : BanoMsg) :
    ∃ flags, fw.banoWaitEvent (encMsg b n m) = { m with flags := flags } := by
  cases paired with
  | xtea cipher alg standard =>
    have body : (encMsg b n m).body = (banoCipherEnc b.cipher m.body).2 := by
      rw [encMsg,if_pos ciphers]
      exact body_withBody m _
    have deciphered : fw.cipherDec (encMsg b n m).body = m.body := by
      rw [standard.cipherDec alg,← banoCipherDec_xtea,← cipher,body,banoCipherDec_enc]
    have op : (encMsg b n m).op = m.op := by
      rw [encMsg,if_pos ciphers]
      rfl
    exact ⟨(encMsg b n m).flags,by rw [Firmware.banoWaitEvent,deciphered,withBody_body,op]⟩
  | clear alg =>
    have plain : encMsg b n m = m := by simp [encMsg,ciphers]
    have deciphered : fw.cipherDec m.body = m.body := by rw [Firmware.cipherDec,alg]
    exact ⟨m.flags,by rw [plain,Firmware.banoWaitEvent,deciphered,withBody_body]⟩

/-- The base reads what the node sent. -/
theorem Paired.decMsg_sendMsg (paired : Paired b fw enc) {m : BanoMsg} (clear : m.has msgFlagEnc = false) :
    decMsg b (fw.sendMsg m) = { m with saddr := fw.addr, flags := if enc then m.flags ||| msgFlagEnc
      else m.flags } := by
  let named : BanoMsg := { m with saddr := fw.addr }
  have clear' : named.has msgFlagEnc = false := clear
  cases paired with
  | xtea cipher alg standard =>
    -- the node sends what the base would write for an entry that ciphers
    let entry : BanoNode := { banoNodeAlloc 0 0 with flags := nodeFlagCipher }
    have sent : fw.sendMsg m = encMsg b entry named := by
      have enciphered : fw.cipherEnc named.body = (banoCipherEnc b.cipher named.body).2 := by
        rw [standard.cipherEnc alg,cipher,banoCipherEnc_xtea]
      have secret : fw.alg ≠ .none := by simp [alg]
      rw [encMsg,if_pos (show entry.ciphers = true by decide),← enciphered]
      exact if_pos secret
    rw [sent,decMsg_encMsg b entry clear',if_pos (show entry.ciphers = true by decide)]
    rfl
  | clear alg =>
    have sent : fw.sendMsg m = named := by simp [Firmware.sendMsg,alg,named]
    rw [sent,decMsg,clear']
    rfl

/-- The flags that are sent for those of a handler: none but REPLY and ERR, and REPLY among them. -/
structure ReplyFlags (flags : BitVec 8) : Prop where
  plain : flags &&& ~~~handlerFlags = 0
  reply : flags &&& msgFlagReply.setWidth 8 ≠ 0

theorem plain_flags : ∀ flags : BitVec 8, flags &&& ~~~handlerFlags = 0 →
    flags.setWidth 6 &&& msgFlagEnc = 0 := by decide

theorem reply_flags : ∀ (flags : BitVec 8) (enc : Bool), flags &&& msgFlagReply.setWidth 8 ≠ 0 →
    (if enc then flags.setWidth 6 ||| msgFlagEnc else flags.setWidth 6) &&& msgFlagReply ≠ 0 := by decide

theorem err_flags : ∀ (flags : BitVec 8) (enc : Bool),
    (if enc then flags.setWidth 6 ||| msgFlagEnc else flags.setWidth 6) &&& msgFlagErr ≠ 0 ↔
      flags &&& msgFlagErr.setWidth 8 ≠ 0 := by decide

theorem get_flags : ∀ flags : BitVec 8, flags &&& ~~~handlerFlags = 0 →
    let sent := msgFlagReply.setWidth 8 ||| flags
    (sent &&& ~~~handlerFlags = 0 ∧ sent &&& msgFlagReply.setWidth 8 ≠ 0) ∧
      (sent &&& msgFlagErr.setWidth 8 ≠ 0 ↔ flags &&& msgFlagErr.setWidth 8 ≠ 0) := by decide

/-- What the base reads of a SET that the node sends with such flags. -/
theorem Paired.sent_answers (paired : Paired b fw enc) (flags : ReplyFlags sent) (m : BanoMsg)
    (set : m.op = msgOpSet) :
    let answer := decMsg b (fw.sendMsg { m with flags := sent.setWidth 6 })
    answer.op = msgOpSet ∧ answer.saddr = fw.addr ∧ answer.key = m.key ∧ answer.val = m.val ∧
      answer.has msgFlagReply = true ∧ answer.has msgFlagErr = decide (sent &&& msgFlagErr.setWidth 8 ≠ 0) := by
  have clear : ({ m with flags := sent.setWidth 6 } : BanoMsg).has msgFlagEnc = false := by
    simp [BanoMsg.has,plain_flags sent flags.plain]
  have read := paired.decMsg_sendMsg clear
  intro answer
  have same : answer = _ := read
  rw [same]
  refine ⟨set,rfl,rfl,rfl,?_,?_⟩
  · exact decide_eq_true (reply_flags sent enc flags.reply)
  · exact decide_eq_decide.mpr (err_flags sent enc)

theorem Request.called (q : Request) (fw : Firmware) (handlers : Handlers) (flags : BitVec 6) :
    (fw.banoLoop handlers { q.io.msg with flags := flags }).1 = some (q.call handlers) := by
  cases q with
  | get junk key fn => rfl
  | set junk key val isAck fn => cases isAck <;> rfl

/-- The node answers a GET, and a SET that its handler acknowledges. -/
theorem Paired.answers (paired : Paired b fw enc) (plain : handlers.Plain) (q : Request) (flags : BitVec 6)
    (answered : (fw.banoLoop handlers { q.io.msg with flags := flags }).2 = some answer) :
    AnswersCall (decMsg b answer) fw.addr (q.call handlers) ((q.call handlers).flags handlers) := by
  cases q with
  | get junk key fn =>
    obtain rfl := Option.some.inj answered
    obtain ⟨⟨within,replies⟩,err⟩ := get_flags _ (plain.get key)
    obtain ⟨op,saddr,key',val,reply,err'⟩ := paired.sent_answers ⟨within,replies⟩
      (makeSetMsg { (Request.get junk key fn).io.msg with flags := flags } key (handlers.get key).2) rfl
    exact ⟨op,saddr,key',val,reply,err'.trans (decide_eq_decide.mpr err)⟩
  | set junk key val isAck fn =>
    let msg : BanoMsg := { (Request.set junk key val isAck fn).io.msg with flags := flags }
    have fields : msg.op = msgOpSet ∧ msg.key = key ∧ msg.val = val := by cases isAck <;> exact ⟨rfl,rfl,rfl⟩
    have sent : (fw.banoLoop handlers msg).2 = if handlers.set msg.key msg.val &&& msgFlagReply.setWidth 8 ≠ 0 then
        some (fw.sendMsg { msg with flags := (handlers.set msg.key msg.val).setWidth 6 }) else none := by
      rw [Firmware.banoLoop,if_pos fields.1]
    rw [fields.2.1,fields.2.2] at sent
    rw [sent] at answered
    split at answered
    · next replies =>
      obtain rfl := Option.some.inj answered
      obtain ⟨op,saddr,key',val',reply,err⟩ := paired.sent_answers ⟨plain.set key val,replies⟩ msg fields.1
      exact ⟨op,saddr,key'.trans fields.2.1,val'.trans fields.2.2,reply,err⟩
    · exact nomatch answered

end

/-- The frame is a reply that answers `io`, and no other pending io of the node. -/
structure RepliesTo (b : Base) (msg : BanoMsg) (node : Ptr) (n : BanoNode) (io : Ptr) (r : BanoIo) : Prop where
  entry : findNodeByAddr b msg.saddr = some (some node)
  cell : b.nodeMem.cell node = some n
  set : msg.op = msgOpSet
  reply : msg.has msgFlagReply = true
  listed : ∃ li, (li,io) ∈ n.pendingIos.entries
  record : b.ioMem.cell io = some r
  answers : msg.answers r.msg = true
  only : ∀ e ∈ n.pendingIos.entries, isAnswered b msg e = true → e.2 = io

/-- The io waits for a reply of the node, and no other io with this key does. -/
structure PendsAlone (b : Base) (n : BanoNode) (io : Ptr) (key : U16) : Prop where
  listed : ∃ li, (li,io) ∈ n.pendingIos.entries
  only : ∀ e ∈ n.pendingIos.entries, ∀ r, b.ioMem.cell e.2 = some r → r.msg.key = key → e.2 = io

/-- The pending ios of the node have their timers. -/
def Awaiting (b : Base) (n : BanoNode) : Prop := ∀ e ∈ n.pendingIos.entries, ∃ r t timers,
  b.ioMem.cell e.2 = some r ∧ r.timer = some t ∧ banoTimerDel b.timers t = some timers

theorem answer_story {mid b' : Base} (answer : Answer mid node n msg io b') : ∃ es, b'.trace = mid.trace ++ es ∧
    story (noted es) io = noted (.answered io msg :: completion io answer.r (answerIo msg) ++ [.released io]) := by
  obtain ⟨li,r,pending,posts,c,t,timers,_,ioCell,_,_,called,_,_,final⟩ := answer
  obtain ⟨fs,posted,new⟩ := (runPosts_grows called).trace
  have trace : (answered mid node n pending msg io r).trace =
      mid.trace ++ .answered io msg :: completion io r (answerIo msg) := by
    rw [answered,completed_trace]
    simp [Base.emit,Base.setNode]
  have same : (answered mid node n pending msg io r).ioMem.next = mid.ioMem.next := by
    unfold answered completed
    split <;> rfl
  have others : ∀ e ∈ fs, Event.io e ≠ some io := by
    intro e member about
    obtain ⟨_,io',_,rfl,fresh⟩ := new e member
    obtain rfl := Option.some.inj about
    exact absurd (Heap.lt_next ioCell) (Nat.not_lt.mpr (same ▸ fresh))
  have mine : ∀ e ∈ .answered io msg :: completion io r (answerIo msg), Event.io e = some io := by
    unfold completion
    split <;> simp [Event.io]
  refine ⟨(.answered io msg :: completion io r (answerIo msg)) ++ fs ++ [.released io],?_,?_⟩
  · have last : b'.trace = c.trace ++ [.released io] := (congrArg Base.trace (banoFreeIo_cases final).1).trans rfl
    rw [last,posted,trace]
    simp
  · have last : ∀ e ∈ [Event.released io], Event.io e = some io := by simp [Event.io]
    rw [noted_append,noted_append,story_append,story_append,story_all mine,story_none others,story_all last]
    simp [noted]

/-- The io that is replied to is answered. -/
theorem RepliesTo.completes {b : Base} (replies : RepliesTo b (decMsg b frame) node n io r) (awaiting : Awaiting b n)
    (linfo : LoopInfo) (env : FrameEnv) (socket : Ptr) (targets : PostsTo b env.posts) :
    ∃ b' es, handleBanoMsg linfo env b socket frame = some (0,b') ∧ b'.trace = b.trace ++ es ∧ story (noted es) io =
      noted (.answered io (decMsg b frame) :: completion io r (answerIo (decMsg b frame)) ++ [.released io]) := by
  obtain ⟨entry,cell,set,reply,⟨li,listed⟩,record,answers,only⟩ := replies
  obtain ⟨_,_,cell',source⟩ := findNodeByAddr_mem entry
  obtain rfl := Option.some.inj (cell.symm.trans cell')
  obtain ⟨b',handled⟩ := handleSetMsg_some linfo cell source awaiting targets
  have result : handleBanoMsg linfo env b socket frame = some (0,b') := by
    simp [handleBanoMsg,entry,dispatch,set,handled]
  have added : addPair env b node n (decMsg b frame) = _ := addPair_eq cell
  have ios : (addPair env b node n (decMsg b frame)).ioMem = b.ioMem := by
    rw [added]
    rfl
  have here : (addPair env b node n (decMsg b frame)).nodeMem.cell node =
      some { n with keyvalPairs := storedPairs env n (decMsg b frame) } := by
    rw [addPair_nodeMem cell,if_pos rfl]
  obtain ⟨n',cell'',cases⟩ := handleSetMsg_cases handled
  obtain rfl := Option.some.inj (cell.symm.trans cell'')
  rcases cases with ⟨_,_,_,_,noReply⟩ | ⟨_,⟨search,_⟩ | ⟨m,io',live,⟨answer⟩⟩⟩
  · simp [noReply] at reply
  · -- the io itself would have been found
    have records : ∀ e ∈ n.pendingIos.entries, ∃ r,
        (addPair env b node n (decMsg b frame)).ioMem.cell e.2 = some r := by
      intro e member
      obtain ⟨r,_,_,live,_⟩ := awaiting e member
      exact ⟨r,ios ▸ live⟩
    have answered : isAnswered (addPair env b node n (decMsg b frame)) (decMsg b frame) (li,io) = true := by
      simp [isAnswered,ios,record,answers]
    rcases findPendingIo_eq (decMsg b frame) here source records with ⟨absent,_⟩ | ⟨_,_,_,_,_,search'⟩
    · exact absurd answered (List.find?_eq_none.mp absent (li,io) listed)
    · simp [search] at search'
  · obtain rfl := Option.some.inj (here.symm.trans live)
    have answered : isAnswered b (decMsg b frame) (answer.li,io') = true := by
      have record' : b.ioMem.cell io' = some answer.r := ios ▸ answer.cell
      simp [isAnswered,record',answer.answers]
    obtain rfl : io' = io := only (answer.li,io') answer.listed answered
    have same : r = answer.r := Option.some.inj (record.symm.trans (ios ▸ answer.cell))
    obtain ⟨es,trace,told⟩ := answer_story answer
    refine ⟨b',_ ++ es,result,by rw [trace,added]; exact List.append_assoc _ _ _,?_⟩
    rw [noted_append,story_append,told,same,story_none]
    · rfl
    · intro e member
      split at member
      · simp [List.mem_singleton.mp member,Event.io]
      · cases member

theorem AnswersCall.answers {q : Request} (answers : AnswersCall m addr (q.call handlers) flags) :
    m.answers q.io.msg = true := by
  obtain ⟨_,_,key,val,_,_⟩ := answers
  cases q with
  | get junk k fn =>
    have same : m.key = k := key
    simp [BanoMsg.answers,Request.io,banoAllocGetIo,msgOpGet,msgOpSet,same]
  | set junk k v isAck fn =>
    have same : m.key = k ∧ m.val = v := ⟨key,val⟩
    cases isAck <;> simp [BanoMsg.answers,Request.io,banoAllocSetIo,same]

theorem answers_key {m pend : BanoMsg} (answers : m.answers pend = true) : pend.key = m.key := by
  unfold BanoMsg.answers at answers
  split at answers
  · exact of_decide_eq_true (Bool.and_eq_true_iff.mp answers).2
  · exact of_decide_eq_true answers

theorem AnswersCall.completion (answers : AnswersCall m addr call flags) (r : BanoIo) (io : Ptr) : ∃ val,
    completion io r (answerIo m) = (if r.complFn.isSome then [.completed io (replyErr flags) val] else []) ∧
      (replyErr flags = ioErrSuccess → val = call.val) := by
  refine ⟨(answerIo m r).complVal,?_,fun success => ?_⟩
  · have err : (answerIo m r).complErr = replyErr flags := by
      by_cases err : flags &&& msgFlagErr.setWidth 8 ≠ 0
      · rw [answerIo,answers.err,decide_eq_true err,replyErr,if_pos err]
        rfl
      · rw [answerIo,answers.err,decide_eq_false err,replyErr,if_neg err]
        rfl
    rw [Bano.completion,err]
  · have fine : m.has msgFlagErr = false := by
      rw [answers.err]
      apply decide_eq_false
      intro err
      rw [replyErr,if_pos err] at success
      exact absurd success (by decide)
    rw [answerIo,fine]
    exact answers.val

/-- Over any steps of the loop: the frame written for a request has the node call the handler that the request
asks for, and the node's answer, where the base reads it, completes the io with what the handler returned. -/
theorem exchange_completes {q : Request} (idle : Idle b)
    (reach : Reach (Loop.step linfo) (fun _ _ => True) ⟨b,none,.idle⟩ labels s)
    (posted : .posted node io { q.io with node := some node } ∈ s.base.trace)
    (written : .written node io addr frame ∈ s.base.trace)
    (entry : findNodeByAddr s.base fw.addr = some (some node)) (cell : s.base.nodeMem.cell node = some n)
    (paired : Paired s.base fw n.ciphers) (plain : handlers.Plain) :
    addr = fw.addr ∧ (fw.banoLoop handlers (fw.banoWaitEvent frame)).1 = some (q.call handlers) ∧
    ∀ answer, (fw.banoLoop handlers (fw.banoWaitEvent frame)).2 = some answer →
      PendsAlone s.base n io (q.call handlers).key → Awaiting s.base n →
      ∀ linfo env socket, PostsTo s.base env.posts → ∃ b' es m val,
        handleBanoMsg linfo env s.base socket answer = some (0,b') ∧ b'.trace = s.base.trace ++ es ∧
        story (noted es) io = noted (.answered io m ::
          (if q.io.complFn.isSome then [.completed io (replyErr ((q.call handlers).flags handlers)) val] else []) ++
            [.released io]) ∧
        (replyErr ((q.call handlers).flags handlers) = ioErrSuccess → val = (q.call handlers).val) := by
  have origins := reach_origins idle reach
  obtain ⟨_,_,live,source⟩ := findNodeByAddr_mem entry
  obtain rfl := Option.some.inj (cell.symm.trans live)
  obtain ⟨_,r0,posted',as⟩ := reach_framed idle reach node io addr frame written
  obtain ⟨_,rfl⟩ := origins.once node io _ node r0 posted posted'
  obtain ⟨rfl,rfl⟩ := as n cell
  obtain ⟨flags,heard⟩ := paired.banoWaitEvent rfl q.io.msg
  have read : fw.banoWaitEvent (encMsg s.base n q.io.msg) = { q.io.msg with flags := flags } := heard
  refine ⟨source,?_,?_⟩
  · show (fw.banoLoop handlers (fw.banoWaitEvent (encMsg s.base n q.io.msg))).1 = _
    rw [read]
    exact q.called fw handlers flags
  · intro answer answered ⟨⟨li,listed⟩,only⟩ awaiting linfo env socket targets
    have answered' : (fw.banoLoop handlers (fw.banoWaitEvent (encMsg s.base n q.io.msg))).2 = some answer := answered
    rw [read] at answered'
    have answers := paired.answers plain q flags answered'
    obtain ⟨r,_,_,record,_⟩ := awaiting (li,io) listed
    obtain ⟨dest,r0,mine,descends⟩ := origins.record io r record
    obtain ⟨rfl,rfl⟩ := origins.once dest io r0 node _ mine posted
    have replies : RepliesTo s.base (decMsg s.base answer) node n io r := by
      refine ⟨answers.saddr ▸ entry,cell,answers.op,answers.reply,⟨li,listed⟩,record,?_,fun e member found => ?_⟩
      · rw [descends.msg]
        exact answers.answers
      · obtain ⟨r',record',matched⟩ := (Option.any_eq_true _ _).mp found
        exact only e member r' record' ((answers_key matched).trans answers.key)
    obtain ⟨b',es,result,trace,told⟩ := replies.completes awaiting linfo env socket targets
    obtain ⟨val,completes,value⟩ := answers.completion r io
    rw [completes,descends.complFn] at told
    exact ⟨b',es,_,val,result,trace,told,value⟩

/-- The node of `doorBase`, with its key. -/
def doorFirmware : Firmware := ⟨0xa5a5a5a5,.xtea,0xdeadbeef,standardLib⟩

/-- Every SET is acknowledged, and every GET yields 7. -/
def sevenHandlers : Handlers := ⟨fun _ _ => 1,fun _ => (0,7)⟩

theorem sevenHandlers_plain : sevenHandlers.Plain := by
  constructor
  · intro key val
    show (1 : BitVec 8) &&& ~~~handlerFlags = 0
    decide
  · intro key
    show (0 : BitVec 8) &&& ~~~handlerFlags = 0
    decide

def askRun : List Label := [.post getPost,.write 0,.postIo bareWrite]

theorem exchange_completes_door : ∃ s frame answer b' es m,
    run (Loop.step bareLoop) askRun ⟨doorBase,none,.idle⟩ = some s ∧
    .written 0 0 0xa5a5a5a5 frame ∈ s.base.trace ∧
    (doorFirmware.banoLoop sevenHandlers (doorFirmware.banoWaitEvent frame)).1 = some (.get 1 7) ∧
    (doorFirmware.banoLoop sevenHandlers (doorFirmware.banoWaitEvent frame)).2 = some answer ∧
    handleBanoMsg bareLoop bareEnv s.base 0 answer = some (0,b') ∧ b'.trace = s.base.trace ++ es ∧
    story (noted es) 0 = noted [.answered 0 m,.completed 0 ioErrSuccess 7,.released 0] := by
  obtain ⟨s,ran,view⟩ : ∃ s, run (Loop.step bareLoop) askRun ⟨doorBase,none,.idle⟩ = some s ∧
      (s.base.trace,(s.base.cipher,findNodeByAddr s.base 0xa5a5a5a5),
        ((s.base.nodeMem.cell 0).map fun n => (n.ciphers,n.pendingIos.entries.map Prod.snd)),
        (s.base.ioMem.cell 0).map BanoIo.timer,(banoTimerDel s.base.timers 0).isSome) =
      ([.posted 0 0 { getPost.request.io with node := some 0 },
          .written 0 0 0xa5a5a5a5 (encMsg doorBase doorNode getPost.request.io.msg)],
        (⟨.xtea,0xdeadbeef⟩,some (some 0)),some (true,[0]),some (some 0),true) :=
    Option.map_eq_some_iff.mp rfl
  simp only [Prod.mk.injEq] at view
  obtain ⟨trace,⟨cipher,entry⟩,lists,record,stops⟩ := view
  obtain ⟨n,cell,same⟩ := Option.map_eq_some_iff.mp lists
  obtain ⟨ciphers,pending⟩ := Prod.mk.inj same
  obtain ⟨r,ioCell,timer⟩ := Option.map_eq_some_iff.mp record
  obtain ⟨timers,stopped⟩ := Option.isSome_iff_exists.mp stops
  have paired : Paired s.base doorFirmware n.ciphers := ciphers ▸ .xtea cipher rfl standardLib_standard
  let frame := encMsg doorBase doorNode getPost.request.io.msg
  have posted : .posted 0 0 { getPost.request.io with node := some 0 } ∈ s.base.trace := by simp [trace]
  have written : .written 0 0 0xa5a5a5a5 frame ∈ s.base.trace := by simp [trace,frame]
  obtain ⟨_,called,completes⟩ := exchange_completes doorBase_idle (.of_run (by simp) ran) posted
    written entry cell paired
    sevenHandlers_plain
  obtain ⟨answer,answered⟩ : ∃ answer,
    (doorFirmware.banoLoop sevenHandlers (doorFirmware.banoWaitEvent frame)).2 = some answer := ⟨_,rfl⟩
  have here : ∀ e ∈ n.pendingIos.entries, e.2 = 0 := by
    intro e member
    have listed := List.mem_map_of_mem (f := Prod.snd) member
    simpa [pending] using listed
  have alone : PendsAlone s.base n 0 1 := by
    refine ⟨?_,fun e member _ _ _ => here e member⟩
    have listed : 0 ∈ n.pendingIos.entries.map Prod.snd := by simp [pending]
    obtain ⟨e,member,same⟩ := List.mem_map.mp listed
    exact ⟨e.1,same ▸ member⟩
  have awaiting : Awaiting s.base n := fun e member => ⟨r,0,timers,by rw [here e member,ioCell],timer,stopped⟩
  obtain ⟨b',es,m,val,result,grown,told,value⟩ := completes answer answered alone awaiting bareLoop bareEnv 0
    (by simp [PostsTo,bareEnv])
  obtain rfl := value rfl
  exact ⟨s,frame,answer,b',es,m,ran,written,called,answered,result,grown,told⟩

end Bano
