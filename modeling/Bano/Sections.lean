import Bano.Open

/-! What the sections of a configuration do to the base that they are applied to, kind by kind. -/
namespace Bano

open Lib

inductive SectionKind where
  | base
  | socket
  | node
  | httpServer
  | cam
  | sms
  deriving DecidableEq

/-- Which branch of apply_struct a section takes. -/
def ConfSection.kind (strukt : ConfSection) : Option SectionKind :=
  if isWord strukt.name "base" then some .base
  else if isWord strukt.name "socket" then some .socket
  else if isWord strukt.name "node" then some .node
  else if isWord strukt.name "http_server" then some .httpServer
  else if isWord strukt.name "cam" then some .cam
  else if isWord strukt.name "sms" then some .sms
  else none

/-- What a section opens, once its pairs are taken. -/
inductive DeviceInfo where
  | httpd (info : BanoHttpdInfo)
  | cam (info : BanoCamInfo)
  | sms (info : BanoSmsInfo)

def takenInfo (wrap : τ → DeviceInfo) (result : Int × τ) : Option DeviceInfo :=
  if result.1 = 0 then some (wrap result.2) else none

def ConfSection.device (strukt : ConfSection) (a : Answers) : Option DeviceInfo :=
  match strukt.kind with
  | some .httpServer =>
    takenInfo .httpd (banoParserForeachPair applyHttpdPair strukt.pairs { a.httpdInfo with flags := 0 })
  | some .cam => takenInfo .cam (banoParserForeachPair applyCamPair strukt.pairs { a.camInfo with flags := 0 })
  | some .sms =>
    takenInfo .sms (banoParserForeachPair applySmsPair strukt.pairs { a.smsInfo with addr := none, port := none })
  | _ => none

/-- The number that the last addr pair gives. -/
def pairsAddr (pairs : List (Token × Text)) : Option U32 :=
  pairs.foldl (fun found pair => if isWord pair.1 "addr" then banoStringToUint32 pair.2.token else found) none

/-- What a section that is no device does to the sockets and nodes; a node without a known description is dropped. -/
inductive Sets (strukt : ConfSection) (err : Int) (b b' : Base) : Prop where
  | settings : (err = 0 → strukt.kind ≠ some .node) →
      b' = { b with flags := b'.flags, cipher := b'.cipher, nodls := b'.nodls } → Sets strukt err b b'
  | socket (type : SocketType) (sockets : LinkedList Ptr) : strukt.kind ≠ some .node →
      sockets.entries = b.sockets.entries ++ [(b.sockets.nextItem,b.socketMem.next)] →
      b' = { b with sockets := sockets, socketMem := b.socketMem.alloc ⟨type⟩ } → Sets strukt err b b'
  | node (n : BanoNode) (nodes : LinkedList Ptr) : strukt.kind = some .node → pairsAddr strukt.pairs = some n.addr →
      n.socket ∈ b.sockets.entries.map Prod.snd → n.postedIos = .empty → n.pendingIos = .empty →
      nodes.entries = b.nodes.entries ++ [(b.nodes.nextItem,b.nodeMem.next)] →
      b' = { b with nodes := nodes, nodeMem := b.nodeMem.alloc n } → Sets strukt err b b'
  | dropped (n : BanoNode) : err ≠ 0 → b' = { b with nodeMem := (b.nodeMem.alloc n).erase b.nodeMem.next } →
      Sets strukt err b b'

/-- Applying a section: it sets something, or it opens a device. -/
inductive Application (env : OpenEnv) (strukt : ConfSection) (a : Answers) (s : BanoBase) :
    Option (Int × BanoBase) → Prop where
  | sets (err : Int) (s' : BanoBase) : strukt.device a = none → Sets strukt err s.base s'.base →
      s' = { s with base := s'.base, addr := s'.addr } → Application env strukt a s (some (err,s'))
  | httpd (info : BanoHttpdInfo) : strukt.device a = some (.httpd info) →
      Application env strukt a s (s.startHttpd a.httpd info)
  | cam (info : BanoCamInfo) : strukt.device a = some (.cam info) →
      Application env strukt a s (some (s.openCam a.cam info))
  | sms (info : BanoSmsInfo) : strukt.device a = some (.sms info) →
      Application env strukt a s (s.openSms env a.sslOpens info)

theorem foreachPair_keeps {fn : Token × Text → σ → Int × σ} {P : σ → Prop}
    (step : ∀ pair s, P s → P (fn pair s).2)
    (start : P s) (pairs : List (Token × Text)) : P (banoParserForeachPair fn pairs s).2 := by
  induction pairs generalizing s with
  | nil => exact start
  | cons pair pairs ih =>
    have kept := step pair s start
    rw [banoParserForeachPair]
    dsimp only
    split
    · exact kept
    · exact ih kept

theorem putUint32_keeps {P : σ → Prop} (start : P info) (kept : ∀ x, P (put x)) (val : Token) :
    P (putUint32 val info put).2 := by
  unfold putUint32
  split
  · exact start
  · exact kept _

theorem putFlag_keeps {P : σ → Prop} (start : P info) (kept : ∀ x, P (put x)) (val : Token) (flags flag : U32) :
    P (putFlag val flags flag info put).2 := by
  unfold putFlag
  split
  · exact start
  · exact kept _
  · exact kept _

/-- A base section changes the address, the flags, the cipher and the descriptions. -/
def OnlySettings (s s' : BanoBase) : Prop :=
  s' = { s with addr := s'.addr, base := { s.base with
    flags := s'.base.flags, cipher := s'.base.cipher, nodls := s'.base.nodls } }

theorem applyBasePair_settings (env : OpenEnv) (pair : Token × Text) (s : BanoBase) (only : OnlySettings s0 s) :
    OnlySettings s0 (applyBasePair env pair s).2 := by
  have settings : ∀ addr flags cipher nodls, OnlySettings s0
      { s with addr := addr, base := { s.base with flags := flags, cipher := cipher, nodls := nodls } } := by
    intro addr flags cipher nodls
    rw [OnlySettings] at only ⊢
    rw [only]
  unfold applyBasePair
  split
  · split
    · exact settings _ s.base.flags s.base.cipher s.base.nodls
    · exact putUint32_keeps only (fun x => settings x s.base.flags s.base.cipher s.base.nodls) _
  split
  · dsimp only
    split <;> exact settings s.addr s.base.flags s.base.cipher _
  split
  · split
    · exact settings s.addr s.base.flags _ s.base.nodls
    split
    · exact settings s.addr s.base.flags _ s.base.nodls
    · exact only
  split
  · split
    · exact only
    · exact settings s.addr s.base.flags _ s.base.nodls
  split
  · exact putFlag_keeps only (fun x => settings s.addr x s.base.cipher s.base.nodls) _ _ _
  · exact only

theorem banoAddSocket_some (b : Base) (type : SocketType) : ∃ sockets,
    banoAddSocket true true b type = some (0,{ b with sockets := sockets, socketMem := b.socketMem.alloc ⟨type⟩ }) ∧
    sockets.entries = b.sockets.entries ++ [(b.sockets.nextItem,b.socketMem.next)] := by
  obtain ⟨sockets,added,entries,_⟩ := b.sockets.addTail_true b.socketMem.next
  exact ⟨sockets,by simp [banoAddSocket,added],entries⟩

theorem infoNode_addr (info : BanoNodeInfo) : (infoNode info).addr = info.addr := by
  unfold infoNode
  dsimp only
  split <;> split <;> rfl

/-- A node that is not listed is released at once. -/
theorem banoAddNode_cases (b : Base) (info : BanoNodeInfo) :
    (banoAddNode true true b info = some (-1,b) ∨ ∃ n : BanoNode,
      banoAddNode true true b info = some (-1,{ b with nodeMem := (b.nodeMem.alloc n).erase b.nodeMem.next })) ∨
    ∃ nodes nodl, banoAddNode true true b info = some (0,{ b with
        nodes := nodes, nodeMem := b.nodeMem.alloc { infoNode info with nodl := some nodl } }) ∧
      info.flags &&& nodeFlagAddr ≠ 0 ∧ nodes.entries = b.nodes.entries ++ [(b.nodes.nextItem,b.nodeMem.next)] := by
  by_cases socket : info.flags &&& nodeFlagSocket = 0
  · exact .inl (.inl (by rw [banoAddNode,if_pos socket]))
  by_cases addr : info.flags &&& nodeFlagAddr = 0
  · exact .inl (.inl (by rw [banoAddNode,if_neg socket,if_pos addr]))
  by_cases nodlId : info.flags &&& nodeFlagNodlId = 0
  · exact .inl (.inl (by rw [banoAddNode,if_neg socket,if_neg addr,if_pos nodlId]))
  cases found : b.nodls.lookup info.nodlId with
  | none =>
    obtain ⟨_,posted,pending,_⟩ := infoNode_fields info
    refine .inl (.inr ⟨infoNode info,?_⟩)
    have live : (b.nodeMem.alloc (infoNode info)).cell b.nodeMem.next = some (infoNode info) :=
      Heap.alloc_cell_next _ _
    rw [banoAddNode,if_neg socket,if_neg addr,if_neg nodlId]
    simp [found,banoNodeFree,live,posted,pending,freeIoItems,Heap.free_live live]
  | some nodl =>
    obtain ⟨nodes,added,entries,_⟩ := b.nodes.addTail_true b.nodeMem.next
    refine .inr ⟨nodes,nodl,?_,addr,entries⟩
    rw [banoAddNode_some socket addr nodlId found,added]

theorem flag_or {flags c f : U32} (apart : c &&& f = 0) : (flags ||| c) &&& f = flags &&& f := by
  rw [BitVec.and_or_distrib_right,apart]
  exact BitVec.or_zero

theorem flag_put {flags f : U32} (one : f ≠ 0) : (flags ||| f) &&& f ≠ 0 := by
  rw [BitVec.and_or_distrib_right,BitVec.and_self]
  exact fun none => one (BitVec.or_eq_zero_iff.mp none).2

theorem flag_clear {flags c f : U32} (apart : c &&& f = 0) : (flags &&& ~~~c) &&& f = flags &&& f := by
  apply BitVec.eq_of_getLsbD_eq
  intro i bound
  have bit := congrArg (fun x => x.getLsbD i) apart
  simp only [BitVec.getLsbD_and] at bit
  simp only [BitVec.getLsbD_and,BitVec.getLsbD_not,bound,decide_true,Bool.true_and]
  cases one : c.getLsbD i <;> cases other : f.getLsbD i <;> simp_all

/-- The address that was noted in the info, if one was. -/
def NodeInfo.noted (ninfo : NodeInfo) : Option U32 := if ninfo.flags &&& nodeFlagAddr ≠ 0
    then some ninfo.addr else none

theorem putUint32_zero (result : putUint32 val info put = (0,info')) : ∃ x, banoStringToUint32 val = some x ∧
    info' = put x := by
  unfold putUint32 at result
  cases number : banoStringToUint32 val with
  | none => simp [number] at result
  | some x => exact ⟨x,rfl,by simpa [number,eq_comm] using result⟩

theorem putFlag_zero (result : putFlag val flags flag info put = (0,info')) :
    info' = put (flags ||| flag) ∨ info' = put (flags &&& ~~~flag) := by
  unfold putFlag at result
  split at result
  · simp at result
  · exact .inl (Prod.mk.inj result).2.symm
  · exact .inr (Prod.mk.inj result).2.symm

theorem applyNodePair_noted (result : applyNodePair pair ninfo = (0,ninfo')) :
    ninfo'.noted = if isWord pair.1 "addr" then banoStringToUint32 pair.2.token else ninfo.noted := by
  unfold applyNodePair at result
  split at result
  · next addr =>
    obtain ⟨x,number,rfl⟩ := putUint32_zero result
    rw [if_pos addr,number,NodeInfo.noted,if_pos (flag_put (by decide))]
  next other =>
  have kept : ∀ flags name seed nodlId, flags &&& nodeFlagAddr = ninfo.flags &&& nodeFlagAddr →
      NodeInfo.noted { ninfo with flags := flags, name := name, seed := seed, nodlId := nodlId } =
        if isWord pair.1 "addr" then banoStringToUint32 pair.2.token else ninfo.noted := by
    intro flags name seed nodlId same
    rw [if_neg other,NodeInfo.noted,NodeInfo.noted]
    simp only [same]
  split at result
  · split at result
    · simp at result
    · obtain rfl := (Prod.mk.inj result).2
      exact kept _ _ _ _ (flag_or (by decide))
  split at result
  · obtain ⟨x,_,rfl⟩ := putUint32_zero result
    exact kept _ _ _ _ (flag_or (by decide))
  split at result
  · obtain ⟨x,_,rfl⟩ := putUint32_zero result
    exact kept _ _ _ _ (flag_or (by decide))
  split at result
  · rcases putFlag_zero result with rfl | rfl
    · exact kept _ _ _ _ (flag_or (by decide))
    · exact kept _ _ _ _ (flag_clear (by decide))
  · simp at result

theorem applyNodePairs_noted (result : banoParserForeachPair applyNodePair pairs ninfo = (0,ninfo')) :
    ninfo'.noted = pairs.foldl (fun found pair => if isWord pair.1 "addr" then banoStringToUint32 pair.2.token else
      found) ninfo.noted := by
  induction pairs generalizing ninfo with
  | nil =>
    obtain rfl := (Prod.mk.inj result).2
    rfl
  | cons pair pairs ih =>
    rw [banoParserForeachPair] at result
    dsimp only at result
    split at result
    · next failed => exact absurd (congrArg Prod.fst result) failed
    · next fine =>
      have here : applyNodePair pair ninfo = (0,(applyNodePair pair ninfo).2) := Prod.ext (not_not.mp fine) rfl
      rw [ih result,applyNodePair_noted here]
      rfl

theorem Sets.refl (b : Base) (failed : err ≠ 0) : Sets strukt err b b :=
  .settings (fun fine => absurd fine failed) rfl

theorem addSocket_sets (other : strukt.kind ≠ some .node) (opens : Bool) (sinfo : BanoSocketInfo) (s : BanoBase) :
    ∃ err b', s.addSocket opens sinfo = some (err,{ s with base := b' }) ∧ Sets strukt err s.base b' := by
  unfold BanoBase.addSocket
  split
  · exact ⟨-1,s.base,rfl,.refl _ (by decide)⟩
  · next type _ =>
    split
    · obtain ⟨sockets,added,entries⟩ := banoAddSocket_some s.base type
      exact ⟨0,_,by rw [added]; rfl,.socket type sockets other entries rfl⟩
    · exact ⟨-1,s.base,rfl,.refl _ (by decide)⟩

theorem applyNodePair_socket (pair : Token × Text) (ninfo : NodeInfo) (own : ninfo.socket = socket) :
    (applyNodePair pair ninfo).2.socket = socket := by
  have number : ∀ {put : U32 → NodeInfo} {info : NodeInfo}, info.socket = socket → (∀ x, (put x).socket = socket) →
      (putUint32 pair.2.token info put).2.socket = socket := fun start kept =>
    putUint32_keeps (P := fun info : NodeInfo => info.socket = socket) start kept _
  unfold applyNodePair
  split
  · refine number ?_ ?_
    · exact own
    · exact fun _ => own
  split
  · split <;> exact own
  split
  · refine number ?_ ?_
    · exact own
    · exact fun _ => own
  split
  · refine number ?_ ?_
    · exact own
    · exact fun _ => own
  split
  · refine putFlag_keeps (P := fun info : NodeInfo => info.socket = socket) ?_ ?_ _ _ _
    · exact own
    · exact fun _ => own
  · exact own

theorem addNode_sets {s : BanoBase} {start : NodeInfo} (node : strukt.kind = some .node)
    (attached : socket ∈ s.base.sockets.entries.map Prod.snd)
    (pairs : banoParserForeachPair applyNodePair strukt.pairs
      { start with flags := nodeFlagSocket, socket := socket } = (0,ninfo)) :
    ∃ err b', s.addNode ninfo = some (err,{ s with base := b' }) ∧ Sets strukt err s.base b' := by
  have noted := applyNodePairs_noted pairs
  have own := foreachPair_keeps (P := fun info : NodeInfo => info.socket = socket) applyNodePair_socket
    (s := { start with flags := nodeFlagSocket, socket := socket }) rfl strukt.pairs
  rw [pairs] at own
  rcases banoAddNode_cases s.base ninfo.toBanoNodeInfo with (failed | ⟨n,dropped⟩) | ⟨nodes,nodl,added,addr,entries⟩
  · exact ⟨-1,s.base,by rw [BanoBase.addNode,failed]; rfl,.refl _ (by decide)⟩
  · exact ⟨-1,_,by rw [BanoBase.addNode,dropped]; rfl,.dropped n (by decide) rfl⟩
  · obtain ⟨same,posted,pending,_⟩ := infoNode_fields ninfo.toBanoNodeInfo
    refine ⟨0,_,by rw [BanoBase.addNode,added]; rfl,
      .node { infoNode ninfo.toBanoNodeInfo with nodl := some nodl } nodes node ?_ ?_
      posted pending entries rfl⟩
    · have fresh : NodeInfo.noted { start with flags := nodeFlagSocket, socket := socket } = none :=
        if_neg (show ¬nodeFlagSocket &&& nodeFlagAddr ≠ 0 by decide)
      rw [NodeInfo.noted,if_pos addr,fresh] at noted
      exact noted.symm.trans (congrArg some (infoNode_addr ninfo.toBanoNodeInfo).symm)
    · exact (same.trans own) ▸ attached

theorem applyStruct_base (env : OpenEnv) {strukt : ConfSection} (a : Answers) (s : BanoBase)
    (kind : strukt.kind = some .base) :
    Application env strukt a s (some (banoParserForeachPair (applyBasePair env) strukt.pairs s)) := by
  have settings : OnlySettings s (banoParserForeachPair (applyBasePair env) strukt.pairs s).2 :=
    foreachPair_keeps (fun pair t only => applyBasePair_settings env pair t only) (show OnlySettings s s from rfl)
      strukt.pairs
  have device : strukt.device a = none := by simp [ConfSection.device,kind]
  have sets : Sets strukt (banoParserForeachPair (applyBasePair env) strukt.pairs s).1 s.base
      (banoParserForeachPair (applyBasePair env) strukt.pairs s).2.base :=
    .settings (fun _ => by simp [kind]) (congrArg BanoBase.base settings)
  exact .sets _ _ device sets (by rw [settings])

/-- The pairs of a section are taken, or the section fails and sets nothing. -/
theorem onPairs_application {pairs : Int × τ} {go : τ → Option (Int × BanoBase)}
    (failed : pairs.1 ≠ 0 → strukt.device a = none)
    (fine : pairs.1 = 0 → Application env strukt a s (go pairs.2)) : Application env strukt a s
      (onPairs pairs s go) := by
  unfold onPairs
  split
  · next failure => exact .sets _ s (failed failure) (.refl _ failure) rfl
  · next success => exact fine (not_not.mp success)

theorem applyStruct_node (env : OpenEnv) (a : Answers) (kind : strukt.kind = some .node)
    (head : s.base.sockets.list.head = some li) : Application env strukt a s (do
      let socket ← s.base.sockets.data li
      let ninfo := { a.nodeInfo with flags := nodeFlagSocket, socket := socket }
      onPairs (banoParserForeachPair applyNodePair strukt.pairs ninfo) s s.addNode) := by
  have device : strukt.device a = none := by simp [ConfSection.device,kind]
  rw [LinkedList.head_eq] at head
  cases entries : s.base.sockets.entries with
  | nil => simp [entries,first] at head
  | cons e es =>
    obtain rfl : e.1 = li := by simpa [entries,first] using head
    have listed : (e.1,e.2) ∈ s.base.sockets.entries := by simp [entries]
    rw [LinkedList.data_eq_some.mpr listed]
    apply onPairs_application (fun _ => device)
    intro success
    obtain ⟨err,b',added,sets⟩ := addNode_sets kind (List.mem_map_of_mem listed) (Prod.ext success rfl)
    rw [added]
    exact .sets err _ device sets rfl

theorem applyStruct_application (env : OpenEnv) (strukt : ConfSection) (a : Answers) (s : BanoBase) :
    Application env strukt a s (applyStruct env strukt a s) := by
  unfold applyStruct
  split
  · next base => exact applyStruct_base env a s (by simp [ConfSection.kind,base])
  next base =>
  split
  · next socket =>
    have kind : strukt.kind = some .socket := by simp [ConfSection.kind,base,socket]
    have device : strukt.device a = none := by simp [ConfSection.device,kind]
    apply onPairs_application (fun _ => device)
    intro _
    have other : strukt.kind ≠ some .node := by simp [kind]
    obtain ⟨err,b',added,sets⟩ := addSocket_sets other a.snrfOpens _ s
    rw [added]
    exact .sets err _ device sets rfl
  next socket =>
  split
  · next node =>
    have kind : strukt.kind = some .node := by simp [ConfSection.kind,base,socket,node]
    split
    · exact .sets (-1) s (by simp [ConfSection.device,kind]) (.refl _ (by decide)) rfl
    · next li head => exact applyStruct_node env a kind head
  next node =>
  split
  · next server =>
    have kind : strukt.kind = some .httpServer := by simp [ConfSection.kind,base,socket,node,server]
    refine onPairs_application (fun failed => ?_) fun success => .httpd _ ?_
    · rw [ConfSection.device,kind]
      exact if_neg failed
    · rw [ConfSection.device,kind]
      exact if_pos success
  next server =>
  split
  · next cam =>
    have kind : strukt.kind = some .cam := by simp [ConfSection.kind,base,socket,node,server,cam]
    refine onPairs_application (fun failed => ?_) fun success => .cam _ ?_
    · rw [ConfSection.device,kind]
      exact if_neg failed
    · rw [ConfSection.device,kind]
      exact if_pos success
  next cam =>
  split
  · next sms =>
    have kind : strukt.kind = some .sms := by simp [ConfSection.kind,base,socket,node,server,cam,sms]
    refine onPairs_application (fun failed => ?_) fun success => .sms _ ?_
    · rw [ConfSection.device,kind]
      exact if_neg failed
    · rw [ConfSection.device,kind]
      exact if_pos success
  · next sms =>
    have kind : strukt.kind = none := by simp [ConfSection.kind,base,socket,node,server,cam,sms]
    exact .sets 0 s (by simp [ConfSection.device,kind]) (.settings (fun _ => by simp [kind]) rfl) rfl

/-- A server adds its socket, started or not. -/
theorem startHttpd_socket (s : BanoBase) (answer : HttpdAnswer) (info : BanoHttpdInfo) : ∃ err s' sockets,
    s.startHttpd answer info = some (err,s') ∧
    s'.base = { s.base with sockets := sockets, socketMem := s.base.socketMem.alloc ⟨.httpd⟩ } ∧
    sockets.entries = s.base.sockets.entries ++ [(s.base.sockets.nextItem,s.base.socketMem.next)] := by
  obtain ⟨sockets,added,entries⟩ := banoAddSocket_some s.base .httpd
  unfold BanoBase.startHttpd banoHttpdInit
  rw [added]
  cases answer <;> exact ⟨_,_,sockets,rfl,rfl,entries⟩

theorem openSms_base {s s' : BanoBase} (result : s.openSms env sslOpens info = some (err,s')) : s'.base = s.base := by
  obtain ⟨⟨err',sms,d⟩,_,result⟩ := Option.bind_eq_some_iff.mp result
  dsimp only at result
  split at result
  all_goals
    obtain ⟨_,rfl⟩ := Prod.mk.inj (Option.some.inj result)
    rfl

theorem openCam_base (s : BanoBase) (answer : CamAnswer) (info : BanoCamInfo) :
    (s.openCam answer info).2.base = s.base := by
  unfold BanoBase.openCam
  dsimp only
  split <;> rfl

theorem device_kind {strukt : ConfSection} (device : strukt.device a = some info) : strukt.kind ≠ some .node := by
  intro kind
  rw [ConfSection.device,kind] at device
  exact nomatch device

/-- What any section does to the sockets and nodes. -/
theorem Application.sets_base (application : Application env strukt a s (some (err,s'))) :
    Sets strukt err s.base s'.base := by
  generalize result : some (err,s') = r at application
  cases application with
  | sets _ _ _ sets _ =>
    obtain ⟨rfl,rfl⟩ := Prod.mk.inj (Option.some.inj result)
    exact sets
  | httpd info device =>
    obtain ⟨_,_,sockets,started,base,entries⟩ := startHttpd_socket s a.httpd info
    obtain ⟨rfl,rfl⟩ := Prod.mk.inj (Option.some.inj (result.trans started))
    exact .socket .httpd sockets (device_kind device) entries base
  | cam info device =>
    have same := openCam_base s a.cam info
    rw [← Option.some.inj result] at same
    have same' : s'.base = s.base := same
    exact .settings (fun _ => device_kind device) (by rw [same'])
  | sms info device =>
    have same := openSms_base result.symm
    exact .settings (fun _ => device_kind device) (by rw [same])

def confSection (name : String) (pairs : List (String × String)) : ConfSection :=
  ⟨literal name,pairs.map fun pair => (literal pair.1,⟨literal pair.2,[10]⟩)⟩

/-- Everything opens. -/
def goodAnswers : Answers :=
  ⟨⟨none,[],0,0⟩,⟨⟨0,0,0,0⟩,[],0⟩,⟨0,0⟩,⟨0,0,.yuyv_320_240⟩,⟨none,none,[]⟩,true,
    .starts,.streams,true⟩

/-- The directory holds the description 0. -/
def oneDescription : OpenEnv := ⟨some [1],true,fun _ nodls => (0,(nodls.setOrAdd true true .init 0 .init).2)⟩

def junkBase : BanoBase := ⟨banoOpen 0,0,false,⟨none,0,0⟩,false,⟨none,false,none,0⟩,false,0,.empty⟩

def confInfo : BanoBaseInfo := ⟨baseFlagConf,0⟩

end Bano
