import Bano.Html
import Bano.Http

/-! What becomes of an HTTP message: an answer at once, or an io that holds a copy of it and answers it later. -/
namespace Bano

open Lib

inductive HttpdFmt where
  | html
  | plain
  | invalid
  deriving DecidableEq

/-- A message with what its answer needs: the connection, and where the thread waits for the result. -/
structure ClientMsg extends HttpdMsg where
  fmt : HttpdFmt
  conn : Ptr
  complErr : Ptr

structure HttpdOpData where
  msgStor : ClientMsg

/-- What bano_httpd_complete_msg sends, and to whom. -/
structure HttpdReply where
  conn : Ptr
  complErr : Ptr
  isPlain : Bool
  err : Int
  data : List UInt8
  deriving DecidableEq

/-- The base with the data of the ios of its clients, and the answers up to now. -/
structure HttpBase where
  base : Base
  hods : Heap HttpdOpData
  replies : List HttpdReply

def hexChar (n : Nat) : UInt8 := if n < 10 then UInt8.ofNat (48 + n) else UInt8.ofNat (87 + n)

/-- The conversion 0x%08x. -/
def hexWord (v : U32) : List UInt8 :=
  48 :: 120 :: (List.range 8).map fun i => hexChar (v >>> (28 - 4 * i) &&& 0xf).toNat

def plainData (complErr complVal : U32) : List UInt8 := hexWord complErr ++ [44,32] ++ hexWord complVal

/-- The plain answer fits in its buffer with the zero of sprintf. -/
theorem plainData_length (complErr complVal : U32) : (plainData complErr complVal).length < 32 := by
  simp [plainData,hexWord]

/-- What gen_base_html leaves of its calls, once the page is released: nothing if one of them failed. -/
def genHtml (calls : List HtmlCall) (mem : Blocks) : Option (Option (List UInt8) × Blocks) := do
  let (_,html,mem) ← HtmlCall.run calls banoHtmlInit mem
  let page ← if html.isErr then some none
    else (blockOf mem html.data).map fun block => some (block.take html.off.toNat)
  let (_,mem) ← banoHtmlFini html mem
  some (page,mem)

theorem genHtml_some (calls : List HtmlCall)
    (mem₀ : Blocks) (bound : (calls.map HtmlCall.length).sum < 2 ^ 31 - 8192) : ∃ page mem,
    genHtml calls mem₀ = some (page,mem) ∧ (page = some (calls.flatMap HtmlCall.bytes) ∨ page = none) ∧
    ∀ q, mem.cell q = mem₀.cell q := by
  obtain ⟨errs,html,mem,ran,outcome⟩ := (Built.init mem₀).run (Nat.zero_le _) calls (by simpa using bound)
  rcases outcome with ⟨_,built,_⟩ | ⟨_,gone⟩
  · obtain ⟨html',mem',freed,same⟩ := built.fini
    obtain ⟨block,held,_,content⟩ := built.block
    exact ⟨_,mem',by simp [genHtml,ran,built.noErr,held.here,freed,content],.inl rfl,same⟩
  · obtain ⟨html',freed⟩ := gone.fini
    have err : html.isErr = true := by rw [gone.page]
    exact ⟨none,mem,by simp [genHtml,ran,err,freed],.inr rfl,gone.same⟩

def banoHttpdCompleteMsg (s : HttpBase) (msg : ClientMsg) (err : Int) (data : List UInt8) : HttpBase :=
  { s with replies := s.replies ++ [⟨msg.conn,msg.complErr,msg.fmt = .plain,err,data⟩] }

/-- What gen_base_html leaves for a base, an error and a value. -/
abbrev PageOf := Base → U32 → U32 → Option (List UInt8)

def completeHttpdMsg (page : PageOf) (s : HttpBase) (msg : ClientMsg) (complErr complVal : U32) : HttpBase :=
  match msg.fmt with
  | .plain => banoHttpdCompleteMsg s msg 0 (plainData complErr complVal)
  | .html | .invalid =>
    match page s.base complErr complVal with
    | some data => banoHttpdCompleteMsg s msg 0 data
    | none => banoHttpdCompleteMsg s { msg with fmt := .plain } 0 (plainData ioErrFailure 0)

def onHttpdIoCompl (page : PageOf) (s : HttpBase) (io : BanoIo) (hod : Ptr) : Option HttpBase := do
  let data ← s.hods.cell hod
  let s := completeHttpdMsg page s data.msgStor io.complErr io.complVal
  let hods ← s.hods.free hod
  some { s with hods := hods }

/-- The branch of the requests that post an io; `onCompl` is on_httpd_io_compl together with its data. -/
def postHttpdMsg (page : PageOf) (onCompl : Ptr → Callback) (env : HttpEnv) (s : HttpBase) (msg : ClientMsg) :
    Option HttpBase := do
  match ← findNodeByAddr s.base msg.naddr with
  | none => some (completeHttpdMsg page s msg ioErrFailure 0)
  | some node =>
    if env.mallocHod = false then some (completeHttpdMsg page s msg ioErrFailure 0)
    else
      let hod := s.hods.next
      let s := { s with hods := s.hods.alloc ⟨msg⟩ }
      if env.mallocIo = false then do
        -- on_error_1
        let hods ← s.hods.free hod
        some (completeHttpdMsg page { s with hods := hods } msg ioErrFailure 0)
      else
        let io := s.base.ioMem.next
        let request := httpRequest { env with hod := onCompl hod } msg.toHttpdMsg
        let (err,base) ← banoPostIo env.mallocItem { s.base with ioMem := s.base.ioMem.alloc request.io } node io
        if err = 0 then some { s with base := base }
        else
          -- on_error_2
          let ioMem ← base.ioMem.free io
          let hods ← s.hods.free hod
          some (completeHttpdMsg page { s with base := { base with ioMem := ioMem }, hods := hods }
            msg ioErrFailure 0)

/-- handle_httpd_msg with its answers and the data of its ios. -/
def answerHttpdMsg (page : PageOf) (onCompl : Ptr → Callback) (env : HttpEnv) (s : HttpBase) (msg : ClientMsg) :
    Option HttpBase :=
  match msg.op with
  | .get | .set => postHttpdMsg page onCompl env s msg
  | .rst => do
    match ← findNodeByAddr s.base msg.naddr with
    | none => some (completeHttpdMsg page s msg ioErrFailure 0)
    | some node =>
      let n ← s.base.nodeMem.cell node
      let (err,pairs) := n.keyvalPairs.setOrAdd env.mallocPair env.mallocPairItem env.junk
        (msg.key.setWidth 32) ⟨0,env.sec⟩
      let s := { s with base := s.base.setNode node { n with keyvalPairs := pairs } }
      if err ≠ 0 then some (completeHttpdMsg page s msg ioErrFailure 0)
      else some (completeHttpdMsg page s msg 0 0)
  | .cam => some (completeHttpdMsg page s msg (env.capture.getD (-1)) 0)
  -- ok if operation not specified
  | .invalid => some (completeHttpdMsg page s msg ioErrSuccess 0)

/-- The reply wakes the thread of the message, with a result that it can tell from none. -/
def HttpdReply.answers (r : HttpdReply) (msg : ClientMsg) : Prop :=
  r.conn = msg.conn ∧ r.complErr = msg.complErr ∧ r.err = 0

/-- The ios that a node lists. -/
def ioLists (b : Base) (p : Ptr) : Option (LinkedList Ptr × LinkedList Ptr) :=
  (b.nodeMem.cell p).map fun n => (n.postedIos,n.pendingIos)

/-- The message was answered once, and nothing was kept of it: what is live was live before, with the same content. -/
structure AnsweredOnce (s s' : HttpBase) (msg : ClientMsg) : Prop where
  replied : ∃ r, s'.replies = s.replies ++ [r] ∧ r.answers msg
  hods : ∀ p, s'.hods.cell p = s.hods.cell p
  ios : ∀ p, s'.base.ioMem.cell p = s.base.ioMem.cell p
  lists : ∀ p, ioLists s'.base p = ioLists s.base p
  timers : s'.base.timers = s.base.timers

/-- The message was not answered, and one new io at the tail of the posted ios of its node holds a copy of it. -/
structure OwnedByIo (onCompl : Ptr → Callback) (s s' : HttpBase) (msg : ClientMsg) : Prop where
  request : msg.op = .get ∨ msg.op = .set
  silent : s'.replies = s.replies
  posted : ∃ node n posted r, findNodeByAddr s.base msg.naddr = some (some node) ∧ s.base.nodeMem.cell node = some n ∧
    s'.base.nodeMem.cell node = some { n with postedIos := posted } ∧
    posted.entries = n.postedIos.entries ++ [(n.postedIos.nextItem,s.base.ioMem.next)] ∧
    (∀ p, p ≠ node → s'.base.nodeMem.cell p = s.base.nodeMem.cell p) ∧
    s'.base.ioMem.cell s.base.ioMem.next = some r ∧ r.node = some node ∧ r.complFn = some (onCompl s.hods.next)
  ios : ∀ p, p ≠ s.base.ioMem.next → s'.base.ioMem.cell p = s.base.ioMem.cell p
  copy : s'.hods.cell s.hods.next = some ⟨msg⟩
  hods : ∀ p, p ≠ s.hods.next → s'.hods.cell p = s.hods.cell p
  timers : s'.base.timers = s.base.timers

theorem completeHttpdMsg_replies (page : PageOf) (s : HttpBase) (msg : ClientMsg) (complErr complVal : U32) :
    ∃ r, completeHttpdMsg page s msg complErr complVal = { s with replies := s.replies ++ [r] } ∧ r.answers msg := by
  unfold completeHttpdMsg
  cases msg.fmt with
  | plain => exact ⟨_,rfl,rfl,rfl,rfl⟩
  | html | invalid => cases page s.base complErr complVal <;> exact ⟨_,rfl,rfl,rfl,rfl⟩

/-- Completing a message of a base whose ios, lists and data are as they were. -/
theorem completeHttpdMsg_once (page : PageOf) (complErr complVal : U32) (replies : mid.replies = s.replies)
    (hods : ∀ p, mid.hods.cell p = s.hods.cell p) (ios : ∀ p, mid.base.ioMem.cell p = s.base.ioMem.cell p)
    (lists : ∀ p, ioLists mid.base p = ioLists s.base p) (timers : mid.base.timers = s.base.timers) :
    AnsweredOnce s (completeHttpdMsg page mid msg complErr complVal) msg := by
  obtain ⟨r,completed,answers⟩ := completeHttpdMsg_replies page mid msg complErr complVal
  rw [completed]
  exact ⟨⟨r,by rw [replies],answers⟩,hods,ios,lists,timers⟩

theorem httpRequest_complFn (env : HttpEnv) (msg : HttpdMsg) : (httpRequest env msg).io.complFn = some env.hod := by
  unfold httpRequest
  split
  · cases ack : decide (msg.isAck ≠ 0) <;> rfl
  · rfl

theorem findNodeByAddr_live (live : ∀ e ∈ b.nodes.entries, ∃ n, b.nodeMem.cell e.2 = some n) (addr : U32) :
    findNodeByAddr b addr = some none ∨ ∃ node n, findNodeByAddr b addr = some (some node) ∧
    b.nodeMem.cell node = some n := by
  have search := findNodeByAddr_eq addr live
  cases found : b.nodes.entries.find? (hasAddr b addr) with
  | none => exact .inl (by rw [search,found]; rfl)
  | some e =>
    obtain ⟨n,cell⟩ := live e (List.mem_of_find?_eq_some found)
    exact .inr ⟨e.2,n,by rw [search,found]; rfl,cell⟩

theorem postHttpdMsg_outcome (page : PageOf) (onCompl : Ptr → Callback) (env : HttpEnv) {s : HttpBase}
    (live : ∀ e ∈ s.base.nodes.entries, ∃ n, s.base.nodeMem.cell e.2 = some n)
    (request : msg.op = .get ∨ msg.op = .set) :
    ∃ s', postHttpdMsg page onCompl env s msg = some s' ∧ (AnsweredOnce s s' msg ∨ OwnedByIo onCompl s s' msg) := by
  have refused : AnsweredOnce s (completeHttpdMsg page s msg ioErrFailure 0) msg :=
    completeHttpdMsg_once page ioErrFailure 0 rfl (fun _ => rfl) (fun _ => rfl) (fun _ => rfl) rfl
  unfold postHttpdMsg
  rcases findNodeByAddr_live live msg.naddr with unknown | ⟨node,n,known,cell⟩
  · rw [unknown]
    exact ⟨_,rfl,.inl refused⟩
  rw [known]
  simp only [Option.bind_eq_bind,Option.bind_some]
  by_cases noHod : env.mallocHod = false
  · rw [if_pos noHod]
    exact ⟨_,rfl,.inl refused⟩
  rw [if_neg noHod]
  have freed : (s.hods.alloc ⟨msg⟩).free s.hods.next = some ((s.hods.alloc ⟨msg⟩).erase s.hods.next) :=
    Heap.free_live (Heap.alloc_cell_next _ _)
  by_cases noIo : env.mallocIo = false
  · rw [if_pos noIo,freed]
    exact ⟨_,rfl,.inl (completeHttpdMsg_once page _ _ rfl (Heap.alloc_erase_cell _ _)
      (fun _ => rfl) (fun _ => rfl) rfl)⟩
  rw [if_neg noIo]
  generalize made : (httpRequest { env with hod := onCompl s.hods.next } msg.toHttpdMsg).io = r
  rcases n.postedIos.addTail_cases env.mallocItem s.base.ioMem.next with failed | ⟨posted,added,entries,_⟩
  · have post : banoPostIo env.mallocItem { s.base with ioMem := s.base.ioMem.alloc r } node s.base.ioMem.next =
        some (-1,{ s.base with ioMem := s.base.ioMem.alloc r }) := by
      simp [banoPostIo,cell,failed]
    rw [post]
    simp only [Option.bind_some]
    rw [if_neg (by decide),Heap.free_live (Heap.alloc_cell_next _ _),Option.bind_some,freed,Option.bind_some]
    exact ⟨_,rfl,.inl (completeHttpdMsg_once page _ _ rfl (Heap.alloc_erase_cell _ _) (Heap.alloc_erase_cell _ _)
      (fun _ => rfl) rfl)⟩
  · have post : banoPostIo env.mallocItem { s.base with ioMem := s.base.ioMem.alloc r } node s.base.ioMem.next =
        some (0,accepted s.base node n posted r) := by
      simp [banoPostIo,cell,added,accepted,Base.emit,Base.setIo,Base.setNode,Heap.alloc_modify]
    rw [post]
    simp only [Option.bind_some]
    rw [if_pos trivial]
    have fn : r.complFn = some (onCompl s.hods.next) := by
      rw [← made]
      exact httpRequest_complFn _ _
    refine ⟨_,rfl,.inr ⟨request,rfl,⟨node,n,posted,_,known,cell,?_,entries,?_,Heap.alloc_cell_next _ _,rfl,
      fn⟩,?_,?_,?_,rfl⟩⟩
    · simp [accepted,cell]
    · exact fun p other => Heap.modify_cell_other other _ _
    · exact fun p other => Heap.alloc_cell_other other _
    · exact Heap.alloc_cell_next _ _
    · exact fun p other => Heap.alloc_cell_other other _

/-- A reset writes the store of a node, which is in no list. -/
theorem setNode_ioLists {b : Base} (cell : b.nodeMem.cell node = some n) (pairs : Store NodeVal) (p : Ptr) :
    ioLists (b.setNode node { n with keyvalPairs := pairs }) p = ioLists b p := by
  by_cases same : p = node
  · subst same
    simp [ioLists,Base.setNode,cell]
  · simp [ioLists,Base.setNode,same]

theorem onHttpdIoCompl_once (page : PageOf) (io : BanoIo) (owned : s.hods.cell hod = some ⟨msg⟩) :
    ∃ s', onHttpdIoCompl page s io hod = some s' ∧ (∃ r, s'.replies = s.replies ++ [r] ∧ r.answers msg) ∧
      s'.base = s.base ∧
      s'.hods.cell hod = none ∧ ∀ p, p ≠ hod → s'.hods.cell p = s.hods.cell p := by
  obtain ⟨r,completed,answers⟩ := completeHttpdMsg_replies page s msg io.complErr io.complVal
  refine ⟨{ s with replies := s.replies ++ [r], hods := s.hods.erase hod },?_,⟨r,rfl,answers⟩,rfl,
    Heap.erase_cell_same _ _,?_⟩
  · simp only [onHttpdIoCompl,owned,completed,Heap.free_live owned,Option.bind_eq_bind,Option.bind_some]
  · exact fun p other => Heap.erase_cell_other other _

/-- Whatever allocations fail, a message is answered once or owned
by one io, which answers it once when it completes. -/
theorem httpMessages (page : PageOf) (onCompl : Ptr → Callback) (env : HttpEnv) (s : HttpBase) (msg : ClientMsg)
    (live : ∀ e ∈ s.base.nodes.entries, ∃ n, s.base.nodeMem.cell e.2 = some n) :
    (∃ s', answerHttpdMsg page onCompl env s msg = some s' ∧ (AnsweredOnce s s' msg ∨ OwnedByIo onCompl s s' msg)) ∧
    ∀ later io hod, later.hods.cell hod = some ⟨msg⟩ → ∃ done, onHttpdIoCompl page later io hod = some done ∧
      (∃ r, done.replies = later.replies ++ [r] ∧ r.answers msg) ∧ done.base = later.base ∧
      done.hods.cell hod = none ∧ ∀ p, p ≠ hod → done.hods.cell p = later.hods.cell p := by
  refine ⟨?_,fun later io hod owned => onHttpdIoCompl_once page io owned⟩
  have refused : ∀ err, AnsweredOnce s (completeHttpdMsg page s msg err 0) msg := fun err =>
    completeHttpdMsg_once page err 0 rfl (fun _ => rfl) (fun _ => rfl) (fun _ => rfl) rfl
  unfold answerHttpdMsg
  cases op : msg.op with
  | get => exact postHttpdMsg_outcome page onCompl env live (.inl op)
  | set => exact postHttpdMsg_outcome page onCompl env live (.inr op)
  | cam => exact ⟨_,rfl,.inl (refused _)⟩
  | invalid => exact ⟨_,rfl,.inl (refused _)⟩
  | rst =>
    rcases findNodeByAddr_live live msg.naddr with unknown | ⟨node,n,known,cell⟩
    · simp only [unknown,Option.bind_eq_bind,Option.bind_some]
      exact ⟨_,rfl,.inl (refused _)⟩
    · simp only [known,cell,Option.bind_eq_bind,Option.bind_some]
      generalize n.keyvalPairs.setOrAdd env.mallocPair env.mallocPairItem env.junk
        (msg.key.setWidth 32) ⟨0,env.sec⟩ = set
      obtain ⟨err,pairs⟩ := set
      have answered : ∀ err, AnsweredOnce s (completeHttpdMsg page
          { s with base := s.base.setNode node { n with keyvalPairs := pairs } } msg err 0) msg := fun err =>
        completeHttpdMsg_once page err 0 rfl (fun _ => rfl) (fun _ => rfl) (setNode_ioLists cell pairs) rfl
      dsimp only
      split
      · exact ⟨_,rfl,.inl (answered _)⟩
      · exact ⟨_,rfl,.inl (answered _)⟩

def servedMsg : ClientMsg := ⟨⟨.get,0xa5a5a5a5,2,0,0⟩,.plain,3,4⟩

/-- A GET for the node of `twoSockets` is owned by its io, which answers it. -/
theorem httpMessages_owned : ∃ s' done,
    answerHttpdMsg (fun _ _ _ => none) id
      ⟨0,⟨0,0⟩,junkIo,0,none,true,true,true,true,true⟩ ⟨twoSockets,.empty,[]⟩ servedMsg = some s' ∧
    OwnedByIo id ⟨twoSockets,.empty,[]⟩ s' servedMsg ∧
    onHttpdIoCompl (fun _ _ _ => none) s' junkIo 0 = some done ∧ ∃ r, done.replies = [r] ∧ r.answers servedMsg := by
  obtain ⟨⟨s',handled,outcome⟩,completes⟩ := httpMessages (fun _ _ _ => none) id
    ⟨0,⟨0,0⟩,junkIo,0,none,true,true,true,true,true⟩ ⟨twoSockets,.empty,[]⟩ servedMsg
    (show ∀ e ∈ [(0,0)], _ from List.forall_mem_singleton.mpr ⟨_,rfl⟩)
  obtain ⟨s₀,posted,silent⟩ : ∃ s', answerHttpdMsg (fun _ _ _ => none) id
      ⟨0,⟨0,0⟩,junkIo,0,none,true,true,true,true,true⟩ ⟨twoSockets,.empty,[]⟩ servedMsg = some s' ∧
        s'.replies = [] :=
    Option.map_eq_some_iff.mp rfl
  obtain rfl := Option.some.inj (posted.symm.trans handled)
  rcases outcome with answered | owned
  · obtain ⟨r,replied,_⟩ := answered.replied
    rw [silent] at replied
    cases replied
  · obtain ⟨done,completed,⟨r,replied,answers⟩,_⟩ := completes s₀ junkIo 0 owned.copy
    exact ⟨s₀,done,posted,owned,completed,r,by rw [replied,silent]; rfl,answers⟩

/-- What the handler's result means for the client: the error that it is told at once, if it is. -/
inductive ToldNow (s s' : HttpBase) (msg : ClientMsg) : Option U32 → Prop
  | later : s'.replies = s.replies → ToldNow s s' msg none
  | now (err : U32) : s'.replies = s.replies ++ [r] → r.answers msg → ToldNow s s' msg (some err)

theorem completeHttpdMsg_told {page : PageOf} (s : HttpBase) (err : U32)
    (completed : completeHttpdMsg page mid msg complErr complVal = s') (replies : mid.replies = s.replies) :
    s'.base = mid.base ∧ ToldNow s s' msg (some err) := by
  obtain ⟨r,added,answers⟩ := completeHttpdMsg_replies page mid msg complErr complVal
  rw [← completed,added]
  exact ⟨rfl,.now err (by rw [replies]) answers⟩

theorem handleHttpdMsg_request {msg : HttpdMsg} (request : msg.op = .get ∨ msg.op = .set)
    (search : findNodeByAddr b msg.naddr = some (some node)) :
    handleHttpdMsg env b msg =
      if env.mallocHod = false then some (some ioErrFailure,b)
      else if env.mallocIo = false then some (some ioErrFailure,b)
      else (banoPostIo env.mallocItem { b with ioMem := b.ioMem.alloc (httpRequest env msg).io } node
        b.ioMem.next).bind fun r =>
        if r.1 = 0 then some (none,r.2) else
        some (some ioErrFailure,{ r.2 with ioMem := r.2.ioMem.erase b.ioMem.next }) := by
  rcases request with op | op <;> simp only [handleHttpdMsg,op,search,Option.bind_eq_bind,Option.bind_some]

theorem postHttpdMsg_handled (request : msg.op = .get ∨ msg.op = .set)
    (result : postHttpdMsg page onCompl env s msg = some s') :
    ∃ err, handleHttpdMsg { env with hod := onCompl s.hods.next } s.base msg.toHttpdMsg = some (err,s'.base) ∧
      ToldNow s s' msg err := by
  unfold postHttpdMsg at result
  obtain ⟨found,search,result⟩ := Option.bind_eq_some_iff.mp result
  cases found with
  | none =>
    obtain ⟨base,told⟩ := completeHttpdMsg_told s ioErrFailure (Option.some.inj result) rfl
    rw [base]
    exact ⟨_,by rcases request with op | op <;> simp [handleHttpdMsg,op,search],told⟩
  | some node =>
    rw [handleHttpdMsg_request request search]
    simp only at result
    split at result
    · next noHod =>
      obtain ⟨base,told⟩ := completeHttpdMsg_told s ioErrFailure (Option.some.inj result) rfl
      rw [base]
      exact ⟨_,if_pos noHod,told⟩
    · next hod =>
      rw [if_neg hod]
      split at result
      · next noIo =>
        obtain ⟨hods,_,result⟩ := Option.bind_eq_some_iff.mp result
        obtain ⟨base,told⟩ := completeHttpdMsg_told s ioErrFailure (Option.some.inj result) rfl
        rw [base]
        exact ⟨_,if_pos noIo,told⟩
      · next io =>
        obtain ⟨⟨err,b⟩,posted,result⟩ := Option.bind_eq_some_iff.mp result
        rw [if_neg io,posted,Option.bind_some]
        simp only at result ⊢
        split at result
        · next accepted =>
          obtain rfl := Option.some.inj result
          exact ⟨none,if_pos accepted,.later rfl⟩
        · next refused =>
          obtain ⟨ioMem,freed,result⟩ := Option.bind_eq_some_iff.mp result
          obtain ⟨hods,_,result⟩ := Option.bind_eq_some_iff.mp result
          obtain ⟨base,told⟩ := completeHttpdMsg_told s ioErrFailure (Option.some.inj result) rfl
          obtain ⟨_,rfl⟩ := Heap.free_eq_some.mp freed
          rw [base]
          exact ⟨_,if_neg refused,told⟩

/-- The base takes the step of the loop, in which a client without an answer is one whose io is posted. -/
theorem answerHttpdMsg_handled (result : answerHttpdMsg page onCompl env s msg = some s') : ∃ err,
    handleHttpdMsg { env with hod := onCompl s.hods.next } s.base msg.toHttpdMsg = some (err,s'.base) ∧
    ToldNow s s' msg err := by
  unfold answerHttpdMsg at result
  cases op : msg.op with
  | get =>
    rw [op] at result
    exact postHttpdMsg_handled (.inl op) result
  | set =>
    rw [op] at result
    exact postHttpdMsg_handled (.inr op) result
  | cam =>
    rw [op] at result
    obtain ⟨base,told⟩ := completeHttpdMsg_told s (env.capture.getD (-1)) (Option.some.inj result) rfl
    rw [base]
    exact ⟨_,by simp only [handleHttpdMsg,op],told⟩
  | invalid =>
    rw [op] at result
    obtain ⟨base,told⟩ := completeHttpdMsg_told s ioErrSuccess (Option.some.inj result) rfl
    rw [base]
    exact ⟨_,by simp only [handleHttpdMsg,op],told⟩
  | rst =>
    rw [op] at result
    obtain ⟨found,search,result⟩ := Option.bind_eq_some_iff.mp result
    cases found with
    | none =>
      obtain ⟨base,told⟩ := completeHttpdMsg_told s ioErrFailure (Option.some.inj result) rfl
      rw [base]
      exact ⟨_,by simp only [handleHttpdMsg,op,search,Option.bind_eq_bind,Option.bind_some],told⟩
    | some node =>
      obtain ⟨n,cell,result⟩ := Option.bind_eq_some_iff.mp result
      simp only [handleHttpdMsg,op,search,cell,Option.bind_eq_bind,Option.bind_some]
      generalize n.keyvalPairs.setOrAdd env.mallocPair env.mallocPairItem env.junk (msg.key.setWidth 32)
        ⟨0,env.sec⟩ = set at *
      obtain ⟨err,pairs⟩ := set
      dsimp only at result ⊢
      split at result
      · next failed =>
        obtain ⟨base,told⟩ := completeHttpdMsg_told s ioErrFailure (Option.some.inj result) rfl
        rw [base]
        exact ⟨_,if_pos failed,told⟩
      · next written =>
        obtain ⟨base,told⟩ := completeHttpdMsg_told s 0 (Option.some.inj result) rfl
        rw [base]
        exact ⟨_,if_neg written,told⟩

end Bano
