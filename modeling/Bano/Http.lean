import Bano.Faces
import Bano.Setup

/-! The requests of HTTP clients. A client that gets no answer at once is answered when its io
completes; the text of the answers only reads the base and is left out. -/
namespace Bano

open Lib

inductive HttpdOp where
  | get
  | set
  | rst
  | cam
  | invalid
  deriving DecidableEq

structure HttpdMsg where
  op : HttpdOp
  naddr : U32
  key : U16
  val : U32
  isAck : U32

/-- `hod` is the data that on_httpd_io_compl is given, and `capture` what bano_cam_capture returns. -/
structure HttpEnv where
  sec : Nat
  junk : NodeVal
  junkIo : BanoIo
  hod : Callback
  capture : Option U32
  mallocHod : Bool
  mallocIo : Bool
  mallocItem : Bool
  mallocPair : Bool
  mallocPairItem : Bool

def httpRequest (env : HttpEnv) (msg : HttpdMsg) : Request :=
  if msg.op = .set then .set env.junkIo msg.key msg.val (msg.isAck ≠ 0) (some env.hod)
  else .get env.junkIo msg.key (some env.hod)

/-- The error that the client is told at once, if it is. -/
def handleHttpdMsg (env : HttpEnv) (b : Base) (msg : HttpdMsg) : Option (Option U32 × Base) :=
  match msg.op with
  | .get | .set => do
    match ← findNodeByAddr b msg.naddr with
    | none => some (some ioErrFailure,b)
    | some node =>
      if env.mallocHod = false then some (some ioErrFailure,b)
      else if env.mallocIo = false then some (some ioErrFailure,b)
      else
        let io := b.ioMem.next
        let (err,b) ← banoPostIo env.mallocItem { b with ioMem := b.ioMem.alloc (httpRequest env msg).io } node io
        if err = 0 then some (none,b)
        else some (some ioErrFailure,{ b with ioMem := b.ioMem.erase io })
  | .rst => do
    match ← findNodeByAddr b msg.naddr with
    | none => some (some ioErrFailure,b)
    | some node =>
      let n ← b.nodeMem.cell node
      let (err,pairs) := n.keyvalPairs.setOrAdd env.mallocPair env.mallocPairItem env.junk
        (msg.key.setWidth 32) ⟨0,env.sec⟩
      let b := b.setNode node { n with keyvalPairs := pairs }
      if err ≠ 0 then some (some ioErrFailure,b) else some (some 0,b)
  | .cam => some (some (env.capture.getD (-1)),b)
  -- ok if operation not specified
  | .invalid => some (some ioErrSuccess,b)

/-- The steps of a loop that has an HTTP socket. -/
inductive Service where
  | loop (label : Label)
  | http (li : Ptr) (env : HttpEnv) (msg : HttpdMsg)

def readHttpd (env : HttpEnv) (b : Base) (li : Ptr) (msg : HttpdMsg) : Option Base := do
  let socket ← b.sockets.data li
  let k ← b.socketMem.cell socket
  if k.type = .httpd then
    let (_,b) ← handleHttpdMsg env b msg
    some b
  else none

def Service.step (linfo : LoopInfo) : Service → Loop → Option Loop
  | .loop label, s => Loop.step linfo label s
  | .http li env msg, s =>
    if s.control = .idle then do
      let b ← readHttpd env s.base li msg
      some { s with base := b }
    else none

/-- A request other than a reset posts an io at most. -/
theorem handleHttpdMsg_posts (other : msg.op ≠ .rst) (result : handleHttpdMsg env b msg = some (err,b')) :
    b' = b ∨ ∃ p, postNew b p = some b' := by
  have posting : ∀ {err b'}, (do
      match ← findNodeByAddr b msg.naddr with
      | none => some (some ioErrFailure,b)
      | some node =>
        if env.mallocHod = false then some (some ioErrFailure,b)
        else if env.mallocIo = false then some (some ioErrFailure,b)
        else
          let io := b.ioMem.next
          let (err,b) ← banoPostIo env.mallocItem { b with ioMem := b.ioMem.alloc (httpRequest env msg).io } node io
          if err = 0 then some (none,b)
          else some (some ioErrFailure,{ b with ioMem := b.ioMem.erase io })) = some (err,b') →
      b' = b ∨ ∃ p, postNew b p = some b' := by
    intro err b' result
    obtain ⟨found,_,result⟩ := Option.bind_eq_some_iff.mp result
    cases found with
    | none => exact .inl (Prod.mk.inj (Option.some.inj result)).2.symm
    | some node =>
      simp only at result
      split at result
      · exact .inl (Prod.mk.inj (Option.some.inj result)).2.symm
      split at result
      · exact .inl (Prod.mk.inj (Option.some.inj result)).2.symm
      obtain ⟨⟨err',mid⟩,posted,result⟩ := Option.bind_eq_some_iff.mp result
      have created : postNew b ⟨httpRequest env msg,node,env.mallocItem⟩ =
          if err' = 0 then some mid else some { mid with ioMem := mid.ioMem.erase b.ioMem.next } := by
        simp [postNew,posted]
      refine .inr ⟨_,created.trans ?_⟩
      simp only at result
      split at result
      · next accepted => exact (if_pos accepted).trans (congrArg some (Prod.mk.inj (Option.some.inj result)).2)
      · next refused => exact (if_neg refused).trans (congrArg some (Prod.mk.inj (Option.some.inj result)).2)
  unfold handleHttpdMsg at result
  cases op : msg.op with
  | get =>
    rw [op] at result
    exact posting result
  | set =>
    rw [op] at result
    exact posting result
  | rst => exact absurd op other
  | cam =>
    rw [op] at result
    exact .inl (Prod.mk.inj (Option.some.inj result)).2.symm
  | invalid =>
    rw [op] at result
    exact .inl (Prod.mk.inj (Option.some.inj result)).2.symm

theorem handleHttpdMsg_calm (other : msg.op ≠ .rst)
    (result : handleHttpdMsg env b msg = some (err,b')) : Calm b b' := by
  rcases handleHttpdMsg_posts other result with rfl | ⟨p,posted⟩
  · exact .refl _
  · exact (postNew_grows posted).calm

/-- A reset writes 0 in the store of the node of its address, whatever the description. -/
def resetPairs (env : HttpEnv) (n : BanoNode) (key : U16) : Store NodeVal :=
  (n.keyvalPairs.setOrAdd env.mallocPair env.mallocPairItem env.junk (key.setWidth 32) ⟨0,env.sec⟩).2

theorem handleHttpdMsg_rst (rst : msg.op = .rst) (result : handleHttpdMsg env b msg = some (err,b')) :
    findNodeByAddr b msg.naddr = some none ∧ b' = b ∨
    ∃ node n, findNodeByAddr b msg.naddr = some (some node) ∧ b.nodeMem.cell node = some n ∧
      b' = b.setNode node { n with keyvalPairs := resetPairs env n msg.key } := by
  unfold handleHttpdMsg at result
  rw [rst] at result
  obtain ⟨found,search,result⟩ := Option.bind_eq_some_iff.mp result
  cases found with
  | none => exact .inl ⟨search,(Prod.mk.inj (Option.some.inj result)).2.symm⟩
  | some node =>
    obtain ⟨n,cell,result⟩ := Option.bind_eq_some_iff.mp result
    refine .inr ⟨node,n,search,cell,?_⟩
    simp only at result
    split at result <;> exact (Prod.mk.inj (Option.some.inj result)).2.symm

theorem readHttpd_handled (result : readHttpd env b li msg = some b') :
    ∃ err, handleHttpdMsg env b msg = some (err,b') := by
  obtain ⟨socket,_,result⟩ := Option.bind_eq_some_iff.mp result
  obtain ⟨k,_,result⟩ := Option.bind_eq_some_iff.mp result
  simp only at result
  split at result
  · obtain ⟨⟨err,mid⟩,handled,same⟩ := Option.bind_eq_some_iff.mp result
    exact ⟨err,Option.some.inj same ▸ handled⟩
  · exact nomatch result

theorem service_http (taken : Service.step linfo (.http li env msg) s = some s') :
    ∃ err b, handleHttpdMsg env s.base msg = some (err,b) ∧ s' = { s with base := b } := by
  simp only [Service.step] at taken
  split at taken
  · obtain ⟨b,read,rfl⟩ := bind_some.mp taken
    obtain ⟨err,handled⟩ := readHttpd_handled read
    exact ⟨err,b,handled,rfl⟩
  · cases taken

end Bano
