import Bano.Setup
import Bano.Steps

/-! What a frame shows of the memory that its io was allocated in: nobody sets the checksum and the
token of a request, nor the value of a GET, and post_io writes all 17 bytes. -/
namespace Bano

open Lib

/-- The same call, in other memory. -/
def Request.allocatedIn (junk : BanoIo) : Request → Request
  | .get _ key fn => .get junk key fn
  | .set _ key val isAck fn => .set junk key val isAck fn

def Request.isGet : Request → Bool
  | .get .. => true
  | .set .. => false

/-- The frame that post_io hands to bano_socket_write for an item of the posted ios. -/
def handedFrame (b : Base) (node li : Ptr) : Option BanoMsg := do
  let n ← b.nodeMem.cell node
  let io ← n.postedIos.data li
  let r ← b.ioMem.cell io
  some (encMsg b n r.msg)

/-- The bytes of a new request, once it is posted to the node and post_io comes to it. -/
def disclosed (b : Base) (node : Ptr) (q : Request) : Option (BitVec 136) := do
  let n ← b.nodeMem.cell node
  let b ← postNew b ⟨q,node,true⟩
  let frame ← handedFrame b node n.postedIos.nextItem
  some frame.bytes

/-- The memory of the io agrees where the frame shows it. -/
structure AgreeOn (q : Request) (m m' : BanoMsg) : Prop where
  csum : m.csum = m'.csum
  token : m.token = m'.token
  val : q.isGet = true → m.val = m'.val

/-- It is the frame that the base tells of. -/
theorem postIo_hands (result : postIo env b node li = some b') : ∃ io addr frame, handedFrame b node li = some frame ∧
    (b.trace ++ [.written node io addr frame]) <+: b'.trace := by
  obtain ⟨n,io,r,cell,data,ioCell,_,cases⟩ := postIo_cases result
  refine ⟨io,n.addr,encMsg b n r.msg,by simp [handedFrame,cell,data,ioCell],?_⟩
  rcases cases with ⟨_,⟨q,_,rfl⟩ | ⟨⟨moved⟩⟩⟩ | ⟨_,⟨done⟩⟩
  · exact List.prefix_rfl
  · rw [moved.final]
    exact List.prefix_rfl
  · obtain ⟨es,posted,_⟩ := (runPosts_grows done.called).trace
    rw [done.final]
    show _ <+: done.mid.trace ++ [.released io]
    rw [posted,List.append_assoc]
    unfold completed
    split
    · show _ <+: (b.trace ++ [.written node io n.addr (encMsg b n r.msg)]) ++ [_] ++ _
      rw [List.append_assoc _ [_]]
      exact List.prefix_append _ _
    · exact List.prefix_append _ _

theorem bytes_body (m : BanoMsg) : m.bytes.extractLsb' 8 128 = m.body := by
  apply BitVec.eq_of_getLsbD_eq
  intro i bound
  simp only [BanoMsg.bytes,BitVec.getLsbD_extractLsb',BitVec.getLsbD_append]
  grind

/-- Enciphering loses nothing. -/
theorem encMsg_body (b : Base) (n : BanoNode) (m : BanoMsg) :
    (encMsg b n m).body = if n.ciphers then (banoCipherEnc b.cipher m.body).2 else m.body := by
  unfold encMsg
  split
  · show (m.withBody _).body = _
    exact body_withBody m _
  · rfl

theorem body_inj {m m' : BanoMsg} (same : m.body = m'.body) :
    m.saddr = m'.saddr ∧ m.csum = m'.csum ∧ m.token = m'.token ∧ m.key = m'.key ∧ m.val = m'.val := by
  have parts := congrArg m.withBody same
  rw [withBody_body,withBody_body] at parts
  simpa using parts

theorem encMsg_bytes_inj {b b' : Base} (cipher : b.cipher = b'.cipher) (flag : n.ciphers = n'.ciphers)
    (same : (encMsg b n m).bytes = (encMsg b' n' m').bytes) : m.body = m'.body := by
  have bodies := congrArg (fun bytes => bytes.extractLsb' 8 128) same
  simp only [bytes_body,encMsg_body,cipher,flag] at bodies
  split at bodies
  · have clear := congrArg (fun body => (banoCipherDec b'.cipher body).2) bodies
    simpa only [banoCipherDec_enc] using clear
  · exact bodies

theorem disclosed_some {b : Base} (live : b.nodeMem.cell node = some n) (q : Request) :
    disclosed b node q = some (encMsg b n q.io.msg).bytes := by
  obtain ⟨posted,added,entries,_⟩ := n.postedIos.addTail_true b.ioMem.next
  have accepts : postNew b ⟨q,node,true⟩ = some (accepted b node n posted q.io) := by
    simp [postNew,banoPostIo,live,added,accepted,Base.emit,Base.setIo,Base.setNode,Heap.alloc_modify]
  have data : posted.data n.postedIos.nextItem = some b.ioMem.next := LinkedList.data_eq_some.mpr (by simp [entries])
  have live' : (accepted b node n posted q.io).nodeMem.cell node = some { n with postedIos := posted } := by
    simp [accepted,live]
  have ioCell : (accepted b node n posted q.io).ioMem.cell b.ioMem.next = some { q.io with node := some node } :=
    Heap.alloc_cell_next _ _
  simp only [disclosed,live,accepts,handedFrame,live',data,ioCell,Option.bind_eq_bind,Option.bind_some]
  rfl

/-- All that a request takes from its memory are the fields that are never set. -/
theorem allocatedIn_body_iff (q : Request) (junk junk' : BanoIo) :
    (q.allocatedIn junk).io.msg.body = (q.allocatedIn junk').io.msg.body ↔ AgreeOn q junk.msg junk'.msg := by
  constructor
  · intro same
    obtain ⟨_,csum,token,_,val⟩ := body_inj same
    cases q with
    | get _ key fn => exact ⟨csum,token,fun _ => val⟩
    | set _ key val' isAck fn =>
      cases isAck <;> exact ⟨csum,token,fun get => nomatch get⟩
  · rintro ⟨csum,token,val⟩
    cases q with
    | get _ key fn => simp [Request.allocatedIn,Request.io,banoAllocGetIo,banoInitCommonIo,BanoMsg.body,
        csum,token,val rfl]
    | set _ key val' isAck fn =>
      cases isAck <;> simp [Request.allocatedIn,Request.io,banoAllocSetIo,banoInitCommonIo,BanoMsg.body,csum,token]

theorem allocatedIn_clear (q : Request) (junk junk' : BanoIo) :
    (q.allocatedIn junk).io.msg.op = (q.allocatedIn junk').io.msg.op ∧
    (q.allocatedIn junk).io.msg.flags = (q.allocatedIn junk').io.msg.flags := by
  cases q <;> exact ⟨rfl,rfl⟩

theorem encMsg_bytes {b b' : Base} (cipher : b.cipher = b'.cipher) (flag : n.ciphers = n'.ciphers) (op : m.op = m'.op)
    (flags : m.flags = m'.flags) (body : m.body = m'.body) : (encMsg b n m).bytes = (encMsg b' n' m').bytes := by
  have clear : (encMsg b n m).op = (encMsg b' n' m').op ∧ (encMsg b n m).flags = (encMsg b' n' m').flags := by
    simp only [encMsg,flag]
    split
    · exact ⟨op,congrArg (fun f => f ||| msgFlagEnc) flags⟩
    · exact ⟨op,flags⟩
  rw [BanoMsg.bytes,BanoMsg.bytes,encMsg_body,encMsg_body,clear.1,clear.2,cipher,flag,body]

/-- Two runs of one request, under one cipher and to nodes that both cipher or both
do not, write the same bytes if and only if the memory agrees. -/
theorem disclosed_iff {b b' : Base} (live : b.nodeMem.cell node = some n) (live' : b'.nodeMem.cell node' = some n')
    (cipher : b.cipher = b'.cipher) (flag : n.ciphers = n'.ciphers) (q : Request) (junk junk' : BanoIo) :
    disclosed b node (q.allocatedIn junk) = disclosed b' node' (q.allocatedIn junk') ↔
    AgreeOn q junk.msg junk'.msg := by
  rw [disclosed_some live,disclosed_some live',Option.some.injEq,← allocatedIn_body_iff]
  constructor
  · exact encMsg_bytes_inj cipher flag
  · obtain ⟨op,flags⟩ := allocatedIn_clear q junk junk'
    exact encMsg_bytes cipher flag op flags

/-- Memory with something in the place of the checksum. -/
def spilledIo : BanoIo := { junkIo with msg := { junkIo.msg with csum := 0xbeef } }

/-- The retry time of a GET is set. -/
theorem disclosed_retryMs : disclosed twoSockets 0 (.get junkIo 1 none) =
    disclosed twoSockets 0 (.get { junkIo with retryMs := 7 } 1 none) :=
  (disclosed_iff (show twoSockets.nodeMem.cell 0 = some _ from rfl)
    (show twoSockets.nodeMem.cell 0 = some _ from rfl) rfl rfl
    (.get junkIo 1 none) junkIo { junkIo with retryMs := 7 }).mpr ⟨rfl,rfl,fun _ => rfl⟩

theorem disclosed_csum : disclosed twoSockets 0 (.get junkIo 1 none) ≠
    disclosed twoSockets 0 (.get spilledIo 1 none) := by
  have live : twoSockets.nodeMem.cell 0 = some _ := rfl
  rw [disclosed_some live,disclosed_some live]
  decide

end Bano
