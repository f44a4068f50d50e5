import Bano.Addresses
import Bano.Notices

/-! The subsystems that a base may have without having opened them: the camera is asked for
only when it is open, a text message is sent whether or not a session is. -/
namespace Bano

open Lib

/-- Before the node that is found stand live nodes with other addresses. -/
structure FoundAt (b : Base) (addr : U32) (front : List (Ptr × Ptr)) (li node : Ptr)
    (back : List (Ptr × Ptr)) (n : BanoNode) : Prop where
  entries : b.nodes.entries = front ++ (li,node) :: back
  cell : b.nodeMem.cell node = some n
  here : n.addr = addr
  others : ∀ e ∈ front, ∃ m, b.nodeMem.cell e.2 = some m ∧ m.addr ≠ addr

theorem findNodeByAddr_foundAt (result : findNodeByAddr b addr = some (some node)) :
    ∃ front li back n, FoundAt b addr front li node back n := by
  obtain ⟨⟨err,found⟩,visited,same⟩ := Option.bind_eq_some_iff.mp result
  obtain rfl := Option.some.inj same
  rw [LinkedList.foreach_visit] at visited
  suffices split : ∀ es, visit (cmpNodeAddr b addr) es none = some (err,some node) → ∃ front li back n,
      es = front ++ (li,node) :: back ∧ b.nodeMem.cell node = some n ∧ n.addr = addr ∧
      ∀ e ∈ front, ∃ m, b.nodeMem.cell e.2 = some m ∧ m.addr ≠ addr by
    obtain ⟨front,li,back,n,entries,cell,addr,before⟩ := split _ visited
    exact ⟨front,li,back,n,entries,cell,addr,before⟩
  intro es
  induction es with
  | nil => intro visited; simp [visit] at visited
  | cons e es ih =>
    intro visited
    obtain ⟨⟨stop,mid⟩,called,rest⟩ := Option.bind_eq_some_iff.mp visited
    obtain ⟨n,cell,called⟩ := Option.bind_eq_some_iff.mp called
    by_cases own : n.addr = addr
    · obtain ⟨rfl,rfl⟩ : (-1 : Int) = stop ∧ some e.2 = mid := by simpa [own] using called
      obtain ⟨_,rfl⟩ : -1 = err ∧ e.2 = node := by simpa using rest
      exact ⟨[],e.1,es,n,rfl,cell,own,by simp⟩
    · obtain ⟨rfl,rfl⟩ : (0 : Int) = stop ∧ none = mid := by simpa [own] using called
      obtain ⟨front,li,back,n',split,cell',same',before⟩ := ih rest
      refine ⟨e :: front,li,back,n',by rw [split]; rfl,cell',same',fun d member => ?_⟩
      rcases List.mem_cons.mp member with rfl | later
      · exact ⟨n,cell,own⟩
      · exact before d later

theorem FoundAt.found (at' : FoundAt b addr front li node back n) : findNodeByAddr b addr = some (some node) := by
  obtain ⟨entries,cell,same,before⟩ := at'
  suffices search : ∀ front, (∀ e ∈ front, ∃ m, b.nodeMem.cell e.2 = some m ∧ m.addr ≠ addr) →
      visit (cmpNodeAddr b addr) (front ++ (li,node) :: back) none = some (-1,some node) by
    rw [findNodeByAddr,LinkedList.foreach_visit,entries,search front before]
    rfl
  intro front
  induction front with
  | nil =>
    intro _
    simp [visit,cmpNodeAddr,cell,same]
  | cons e front ih =>
    intro before
    obtain ⟨m,live,other⟩ := before e List.mem_cons_self
    simp [visit,cmpNodeAddr,live,other,ih fun d later => before d (List.mem_cons_of_mem _ later)]

/-- What a step makes of the nodes: known ones keep address and description, a new one has none. -/
structure Renewed (b b' : Base) : Prop where
  next : b.nodeMem.next ≤ b'.nodeMem.next
  cell : ∀ p n', b'.nodeMem.cell p = some n' →
    (∃ n, b.nodeMem.cell p = some n ∧ n'.addr = n.addr ∧ n'.nodl = n.nodl) ∨ p = b.nodeMem.next ∧ n'.nodl = none
  listed : ∃ li, b'.nodes.entries.Sublist (b.nodes.entries ++ [(li,b.nodeMem.next)])

theorem Renewed.refl (b : Base) : Renewed b b :=
  ⟨Nat.le_refl _,fun _ n cell => .inl ⟨n,cell,rfl,rfl⟩,0,List.sublist_append_left _ _⟩

theorem Renewed.calm (renewed : Renewed b mid) (calm : Calm mid b') : Renewed b b' := by
  obtain ⟨li,listed⟩ := renewed.listed
  refine ⟨Nat.le_trans renewed.next (Nat.le_of_eq calm.next.symm),fun p n' cell' => ?_,li,calm.nodes.trans listed⟩
  obtain ⟨n,cell,same⟩ := calm.face p n' cell'
  obtain ⟨_,addr,_,nodl,_⟩ := face_fields same
  rw [addr,nodl]
  exact renewed.cell p n cell

/-- The node stores a value. -/
theorem Renewed.store {mid b' : Base} (renewed : Renewed b mid) (cell : mid.nodeMem.cell node = some n)
    (pairs : Store NodeVal)
    (nodeMem : ∀ p, b'.nodeMem.cell p = if p = node then some { n with keyvalPairs := pairs } else mid.nodeMem.cell p)
    (next : b'.nodeMem.next = mid.nodeMem.next) (nodes : b'.nodes = mid.nodes) : Renewed b b' := by
  refine ⟨next ▸ renewed.next,fun p n' cell' => ?_,nodes ▸ renewed.listed⟩
  rw [nodeMem] at cell'
  split at cell'
  · next here =>
    obtain rfl := Option.some.inj cell'
    subst here
    exact renewed.cell p n cell
  · exact renewed.cell p n' cell'

theorem Renewed.addPair (renewed : Renewed b mid) (cell : mid.nodeMem.cell node = some n)
    (env : FrameEnv) (msg : BanoMsg) :
    Renewed b (addPair env mid node n msg) := by
  have added : Bano.addPair env mid node n msg = _ := addPair_eq cell
  exact renewed.store cell _ (addPair_nodeMem cell) (by rw [added]; rfl) (by rw [added]; rfl)

theorem registered_renewed (b : Base)
    (entries : nodes.entries = b.nodes.entries ++ [(li,b.nodeMem.next)]) (addr : U32)
    (socket : Ptr) : Renewed b (registered b nodes addr socket) := by
  refine ⟨Nat.le_succ _,fun p n' cell' => ?_,li,by rw [← entries]; exact List.Sublist.refl _⟩
  by_cases here : p = b.nodeMem.next
  · subst here
    obtain rfl := Option.some.inj ((Heap.alloc_cell_next _ _).symm.trans cell')
    exact .inr ⟨rfl,rfl⟩
  · exact .inl ⟨n',(Heap.alloc_cell_other here _).symm.trans cell',rfl,rfl⟩

theorem Heard.renewed (heard : Heard env socket m b b') : Renewed b b' := by
  cases heard with
  | other calm _ => exact (Renewed.refl b).calm calm
  | known _ cell _ calm => exact ((Renewed.refl b).addPair cell env m).calm calm
  | @new nodes _ _ entries unset set =>
    have start := registered_renewed b entries m.saddr socket
    by_cases op : m.op = msgOpSet
    · exact (start.addPair (Heap.alloc_cell_next _ _) env m).calm (set op)
    · exact start.calm (unset op)

theorem service_renewed (taken : Service.step linfo service s = some s') : Renewed s.base s'.base := by
  cases service with
  | loop label =>
    rcases step_heard taken with ⟨_,calm⟩ | ⟨_,_,_,_,heard⟩
    · exact (Renewed.refl _).calm calm
    · exact heard.renewed
  | http li env msg =>
    obtain ⟨err,b,handled,rfl⟩ := service_http taken
    by_cases rst : msg.op = .rst
    · rcases handleHttpdMsg_rst rst handled with ⟨_,rfl⟩ | ⟨node,n,_,cell,rfl⟩
      · exact .refl _
      · exact (Renewed.refl s.base).store cell _ (setNode_nodeMem cell _) rfl rfl
    · exact (Renewed.refl _).calm (handleHttpdMsg_calm rst handled)

/-- How a base has come from an earlier one that was not closed. -/
structure SinceOpen (b0 b : Base) : Prop where
  next : b0.nodeMem.next ≤ b.nodeMem.next
  nodes : ∃ new, b.nodes.entries = b0.nodes.entries ++ new ∧ ∀ e ∈ new, ∀ n,
    b.nodeMem.cell e.2 = some n → n.nodl = none
  known : ∀ e ∈ b0.nodes.entries, ∀ n, b.nodeMem.cell e.2 = some n →
    ∃ n0, b0.nodeMem.cell e.2 = some n0 ∧ n.addr = n0.addr ∧ n.nodl = n0.nodl
  sockets : ∀ e ∈ b.sockets.entries, e ∈ b0.sockets.entries
  socket : ∀ p k, b.socketMem.cell p = some k → b0.socketMem.cell p = some k

theorem SinceOpen.refl (b : Base) : SinceOpen b b :=
  ⟨Nat.le_refl _,⟨[],(List.append_nil _).symm,by simp⟩,fun _ _ n cell => ⟨n,cell,rfl,rfl⟩,
    fun _ => id,fun _ _ => id⟩

theorem SinceOpen.step {b0 b b' : Base} (since : SinceOpen b0 b) (known : KnownNodes b0) (notices : Notices may b b')
    (renewed : Renewed b b') : SinceOpen b0 b' := by
  obtain ⟨new,entries,undescribed⟩ := since.nodes
  obtain ⟨later,entries'⟩ := notices.nodes
  refine ⟨Nat.le_trans since.next renewed.next,⟨new ++ later,?_,?_⟩,?_,
    fun e listed => since.sockets e (notices.sockets e listed),fun p k cell =>
      since.socket p k (notices.socket p k cell)⟩
  · rw [← entries',entries,List.append_assoc]
  · intro e member n' cell'
    rcases renewed.cell e.2 n' cell' with ⟨n,cell,_,nodl⟩ | ⟨_,nodl⟩
    · rcases List.mem_append.mp member with early | late
      · exact nodl.trans (undescribed e early n cell)
      · -- what was listed last was not in memory before
        obtain ⟨li,listed⟩ := renewed.listed
        rw [← entries',List.append_sublist_append_left] at listed
        obtain rfl := List.mem_singleton.mp (listed.subset late)
        exact absurd (Heap.lt_next cell) (Nat.lt_irrefl _)
    · exact nodl
  · intro e member n' cell'
    rcases renewed.cell e.2 n' cell' with ⟨n,cell,addr,nodl⟩ | ⟨fresh,_⟩
    · obtain ⟨n0,cell0,addr0,nodl0⟩ := since.known e member n cell
      exact ⟨n0,cell0,addr.trans addr0,nodl.trans nodl0⟩
    · exact absurd fresh (Nat.ne_of_lt (Nat.lt_of_lt_of_le (known e member) since.next))

/-- A look-up that finds a described node has found it from the start. -/
theorem SinceOpen.found (since : SinceOpen b0 b) (search : findNodeByAddr b addr = some (some node))
    (cell : b.nodeMem.cell node = some n) (described : n.nodl ≠ none) :
    ∃ n0, findNodeByAddr b0 addr = some (some node) ∧ b0.nodeMem.cell node = some n0 ∧ n.nodl = n0.nodl := by
  obtain ⟨new,entries,undescribed⟩ := since.nodes
  obtain ⟨front,li,back,n',split,cell',here,others⟩ := findNodeByAddr_foundAt search
  obtain rfl := Option.some.inj (cell.symm.trans cell')
  have old : (li,node) ∉ new := fun late => described (undescribed (li,node) late n cell)
  rcases List.append_eq_append_iff.mp (entries.symm.trans split) with ⟨mid,_,late⟩ | ⟨mid,early,late⟩
  · exact absurd (late ▸ List.mem_append_right _ List.mem_cons_self) old
  · cases mid with
    | nil => exact absurd (show (li,node) ∈ [] ++ new from late ▸ List.mem_cons_self) old
    | cons e mid =>
      obtain ⟨rfl,_⟩ := List.cons.inj late
      obtain ⟨n0,cell0,addr0,nodl0⟩ := since.known (li,node) (by simp [early]) n cell
      refine ⟨n0,FoundAt.found ⟨early,cell0,addr0.symm.trans here,fun d member => ?_⟩,cell0,nodl0⟩
      obtain ⟨m,live,other⟩ := others d member
      obtain ⟨m0,live0,same,_⟩ := since.known d (by simp [early,member]) m live
      exact ⟨m0,live0,same ▸ other⟩

/-- What asks a subsystem for something. -/
inductive Use where
  | smsSend (val : U32)
  | camCapture
  | camGetImage

/-- Whether the subsystem is open. -/
def Use.Opened (s : BanoBase) : Use → Prop
  | .smsSend _ => s.isSms = true
  | .camCapture => s.isCam = true
  | .camGetImage => s.isCam = true

/-- A base that is served: what its configuration opened, its loop, and what was asked for. -/
structure Site where
  opened : BanoBase
  loop : Loop
  uses : List Use

/-- A step of the loop, or a request that on_event answers in the thread
of the server; `ob` is the object that is asked for. -/
inductive Action where
  | service (service : Service)
  | event (ob : Token)

/-- BANO_HTTPD_MSG_OP_CAM captures if there is a camera; `env.capture` is then what bano_cam_capture returns. -/
def Service.within (s : BanoBase) : Service → Service
  | .loop label => .loop label
  | .http li env msg => .http li { env with capture := if s.isCam then some (env.capture.getD 0) else none } msg

def Service.camUses (s : BanoBase) : Service → List Use
  | .loop _ => []
  | .http _ _ msg => if msg.op = .cam && s.isCam then [.camCapture] else []

/-- The texts among the events. -/
def smsUses (es : List Event) : List Use := es.filterMap fun
  | .sms val => some (.smsSend val)
  | _ => none

/-- A specific object is the image of the camera, if there is one; any other request is left to the loop. -/
def eventUses (s : BanoBase) (ob : Token) : List Use := if ob = literal "cam" && s.isCam then [.camGetImage] else []

def Site.step (linfo : LoopInfo) : Action → Site → Option Site
  | .service service, w => do
    let loop ← Service.step linfo (service.within w.opened) w.loop
    let told := loop.base.trace.drop w.loop.base.trace.length
    some { w with loop := loop, uses := w.uses ++ service.camUses w.opened ++ smsUses told }
  | .event ob, w => some { w with uses := w.uses ++ eventUses w.opened ob }

def Site.start (s : BanoBase) : Site := ⟨s,⟨s.base,none,.idle⟩,[]⟩

/-- A frame can be read that is to be notified: there is a radio, and
an address leads to a node with a key so marked. -/
def CanNotify (b : Base) : Prop :=
  (∃ li socket, (li,socket) ∈ b.sockets.entries ∧ b.socketMem.cell socket = some ⟨.snrf⟩) ∧
  ∃ addr node n nodl key kv, findNodeByAddr b addr = some (some node) ∧ b.nodeMem.cell node = some n ∧
    n.nodl = some nodl ∧
    banoNodlFindKey nodl key = some kv ∧ kv.flags &&& nodlFlagNotif ≠ 0

theorem notifies_described (sends : notifies n msg = true) : ∃ nodl kv, n.nodl = some nodl ∧
    banoNodlFindKey nodl msg.key = some kv ∧ kv.flags &&& nodlFlagNotif ≠ 0 := by
  simp only [notifies,Bool.and_eq_true] at sends
  cases own : n.nodl with
  | none => simp [own] at sends
  | some nodl =>
    cases found : banoNodlFindKey nodl msg.key with
    | none => simp [own,found] at sends
    | some kv => exact ⟨nodl,kv,rfl,found,by simpa [own,found] using sends.2⟩

theorem snrfFrame_radio (frame : snrfFrame b li env msg = some (socket,env',msg')) :
    (li,socket) ∈ b.sockets.entries ∧ b.socketMem.cell socket = some ⟨.snrf⟩ := by
  obtain ⟨socket',listed,frame⟩ := Option.bind_eq_some_iff.mp frame
  obtain ⟨⟨type⟩,cell,frame⟩ := Option.bind_eq_some_iff.mp frame
  split at frame
  · next snrf =>
    obtain rfl : type = .snrf := snrf
    obtain ⟨rfl,_⟩ := Prod.mk.inj (Option.some.inj frame)
    exact ⟨LinkedList.data_eq_some.mp listed,cell⟩
  · exact nomatch frame

theorem Label.frame_radio {label : Label} (frame : label.frame s = some (socket,env,msg)) :
    ∃ li, (li,socket) ∈ s.base.sockets.entries ∧ s.base.socketMem.cell socket = some ⟨.snrf⟩ := by
  unfold Label.frame at frame
  split at frame
  · exact ⟨_,snrfFrame_radio frame⟩
  · exact ⟨_,snrfFrame_radio frame⟩
  · exact nomatch frame

/-- What a step is notified of could be read from the start. -/
theorem SinceOpen.canNotify {s : Loop} (since : SinceOpen b0 s.base) (notifies : Service.Notifies service s) :
    CanNotify b0 := by
  cases service with
  | http li env msg => exact notifies.elim
  | loop label =>
    obtain ⟨socket,env,msg,frame,node,search,n,cell,sends⟩ := notifies
    obtain ⟨nodl,kv,own,found,flag⟩ := notifies_described sends
    obtain ⟨n0,search0,cell0,same⟩ := since.found search cell (by simp [own])
    obtain ⟨li,listed,radio⟩ := Label.frame_radio frame
    exact ⟨⟨li,socket,since.sockets _ listed,since.socket _ _ radio⟩,_,node,n0,nodl,_,kv,search0,cell0,
      same ▸ own,found,flag⟩

theorem Sets.trace (sets : Sets strukt err b b') : b'.trace = b.trace := by
  cases sets with
  | settings _ same => rw [same]
  | socket _ _ _ _ same => rw [same]
  | node _ _ _ _ _ _ _ _ same => rw [same]
  | dropped _ _ same => rw [same]

theorem applyStructs_trace (result : applyStructs env conf s = some (err,s')) : s'.base.trace = s.base.trace := by
  induction conf generalizing s with
  | nil =>
    obtain ⟨_,rfl⟩ := Prod.mk.inj (Option.some.inj result)
    rfl
  | cons x conf ih =>
    obtain ⟨⟨err',mid⟩,applied,rest⟩ := Option.bind_eq_some_iff.mp result
    have sets :=
      (applied ▸ applyStruct_application env x.1 x.2 s : Application env x.1 x.2 s (some (err',mid))).sets_base
    dsimp only at rest
    split at rest
    · obtain ⟨_,rfl⟩ := Prod.mk.inj (Option.some.inj rest)
      exact sets.trace
    · exact (ih rest).trans sets.trace

/-- Nothing has happened when a base is opened. -/
theorem banoOpen_trace (opened : BanoBase.banoOpen env junk info (some conf) = some (0,s)) : s.base.trace = [] := by
  rcases BanoBase.banoOpen_applied opened with ⟨_,applied⟩ | ⟨_,rfl⟩
  · exact applyStructs_trace applied
  · rfl

theorem mem_smsUses : use ∈ smsUses es ↔ ∃ v, .sms v ∈ es ∧ use = .smsSend v := by
  rw [smsUses,List.mem_filterMap]
  constructor
  · rintro ⟨e,member,same⟩
    split at same
    · exact ⟨_,member,(Option.some.inj same).symm⟩
    · exact nomatch same
  · rintro ⟨v,member,rfl⟩
    exact ⟨.sms v,member,rfl⟩

/-- The camera is asked for behind its bit, on either path. -/
theorem camera_opened (s : BanoBase) (service : Service) (ob : Token) :
    ∀ use ∈ service.camUses s ++ eventUses s ob, use.Opened s := by
  intro use member
  rcases List.mem_append.mp member with capture | image
  · cases service with
    | loop label => exact nomatch capture
    | http li env msg =>
      rw [Service.camUses] at capture
      split at capture
      · next both =>
        obtain rfl := List.mem_singleton.mp capture
        simp only [Bool.and_eq_true] at both
        exact both.2
      · exact nomatch capture
  · rw [eventUses] at image
    split at image
    · next both =>
      obtain rfl := List.mem_singleton.mp image
      simp only [Bool.and_eq_true] at both
      exact both.2
    · exact nomatch image

/-- A closed loop does nothing more. -/
theorem service_closed (closed : s.control = .closed) : Service.step linfo service s = none := by
  cases service with
  | loop label => simp [Service.step,Loop.step,closed]
  | http li env msg => simp [Service.step,closed]

/-- Nothing was sent, and nothing that is read can be notified. -/
structure Silent (b0 : Base) (s : Loop) : Prop where
  unsent : ∀ v, .sms v ∉ s.base.trace
  since : s.control = .closed ∨ SinceOpen b0 s.base

theorem Silent.step (silent : Silent b0 s) (known : KnownNodes b0) (mute : ¬CanNotify b0)
    (taken : Service.step linfo service s = some s') : Silent b0 s' := by
  rcases silent.since with closed | since
  · rw [service_closed closed] at taken
    exact nomatch taken
  · refine ⟨fun v sent => ?_,?_⟩
    · rcases service_texts taken sent with before | notifies
      · exact silent.unsent v before
      · exact mute (since.canNotify notifies)
    · rcases service_notices taken with notices | ⟨closed,_⟩
      · exact .inr (since.step known notices (service_renewed taken))
      · exact .inl closed

structure Orderly (s : BanoBase) (w : Site) : Prop where
  opened : w.opened = s
  uses : ∀ use ∈ w.uses, use.Opened s
  silent : s.isSms = true ∨ Silent s.base w.loop

theorem Orderly.step (orderly : Orderly s w) (known : KnownNodes s.base) (mute : s.isSms = true ∨ ¬CanNotify s.base)
    (taken : Site.step linfo action w = some w') : Orderly s w' := by
  obtain ⟨rfl,uses,silent⟩ := orderly
  cases action with
  | event ob =>
    obtain rfl := Option.some.inj taken
    refine ⟨rfl,fun use member => ?_,silent⟩
    rcases List.mem_append.mp member with before | image
    · exact uses use before
    · exact camera_opened w.opened (.loop .selectFails) ob use (List.mem_append_right _ image)
  | service service =>
    obtain ⟨loop,stepped,rfl⟩ := bind_some.mp taken
    have silent' : w.opened.isSms = true ∨ Silent w.opened.base loop := by
      rcases silent with session | silent
      · exact .inl session
      · exact mute.imp id fun mute => silent.step known mute stepped
    refine ⟨rfl,fun use member => ?_,silent'⟩
    rcases List.mem_append.mp member with before | text
    · rcases List.mem_append.mp before with before | capture
      · exact uses use before
      · exact camera_opened w.opened service [] use (List.mem_append_left _ capture)
    · obtain ⟨v,told,rfl⟩ := mem_smsUses.mp text
      exact silent'.elim id fun silent => absurd (List.mem_of_mem_drop told) (silent.unsent v)

/-- A SET of the key, read from the radio of a base that is not yet in a turn, sends a text. -/
theorem notified_sends (can : CanNotify s.base) : ∃ li m w,
    Site.step bareLoop (.service (.loop (.read li bareEnv (.msg m)))) (.start s) = some w ∧
    .smsSend m.val ∈ w.uses := by
  obtain ⟨⟨li,socket,listed,radio⟩,addr,node,n,nodl,key,kv,search,cell,own,found,flag⟩ := can
  let m : BanoMsg := ⟨msgOpSet,0,addr,0,0,key,0⟩
  have sends : notifies n m = true := by simpa [notifies,own,found,m,BanoMsg.has] using flag
  have clear : decMsg s.base m = m := if_neg (by simp [m,BanoMsg.has])
  have handled : dispatch bareLoop bareEnv s.base m node = some (addPair bareEnv s.base node n m) := by
    have unasked : m.has msgFlagReply = false := by simp [m,BanoMsg.has]
    show handleSetMsg bareLoop bareEnv s.base m node = _
    simp [handleSetMsg,cell,unasked,bareLoop]
  have read : readMsg bareLoop bareEnv s.base li (.msg m) = some (addPair bareEnv s.base node n m) := by
    rw [readMsg,LinkedList.data_eq_some.mpr listed]
    show (s.base.socketMem.cell socket).bind _ = _
    rw [radio]
    show (handleBanoMsg bareLoop bareEnv s.base socket m).bind _ = _
    rw [handleBanoMsg,clear]
    show ((findNodeByAddr s.base addr).bind _).bind _ = _
    rw [search]
    show ((dispatch bareLoop bareEnv s.base m node).bind _).bind _ = _
    rw [handled]
    rfl
  have added : addPair bareEnv s.base node n m = _ := addPair_eq cell
  refine ⟨li,m,_,bind_some.mpr ⟨⟨addPair bareEnv s.base node n m,none,.idle⟩,?_,rfl⟩,?_⟩
  · show (readMsg bareLoop bareEnv s.base li (.msg m)).bind _ = _
    rw [read]
    rfl
  · refine List.mem_append_right _ (mem_smsUses.mpr ⟨m.val,?_,rfl⟩)
    show Event.sms m.val ∈ (addPair bareEnv s.base node n m).trace.drop s.base.trace.length
    rw [added]
    simp [sends]

/-- Whatever is received, only subsystems that are open are used, if and only if the session for texts is open or no
description that a frame can lead to marks a key. -/
theorem uses_opened_iff (opened : BanoBase.banoOpen env junk info (some conf) = some (0,s)) :
    (∀ linfo actions w, run (Site.step linfo) actions (.start s) = some w → ∀ use ∈ w.uses, use.Opened s) ↔
    s.isSms = true ∨ ¬CanNotify s.base := by
  constructor
  · intro allowed
    by_cases can : CanNotify s.base
    · obtain ⟨li,m,w,sent,used⟩ := notified_sends can
      exact .inl (allowed bareLoop [_] w (by rw [run,sent]; rfl) _ used)
    · exact .inr can
  · intro mute linfo actions w ran
    have known := (banoOpen_addresses opened).1
    have start : Orderly s (.start s) := by
      refine ⟨rfl,fun _ member => absurd member List.not_mem_nil,.inr ⟨fun v sent => ?_,.inr (.refl _)⟩⟩
      rw [show (Site.start s).loop.base.trace = [] from banoOpen_trace opened] at sent
      cases sent
    have reach : Reach (Site.step linfo) (fun _ _ => True) (.start s) actions w := .of_run (by simp) ran
    have orderly := reach.invariant (fun w => Orderly s w) start fun _ _ _ orderly _ taken =>
      orderly.step known mute taken
    exact orderly.uses

/-- The key 1 is notified. -/
def notifNodl : Nodl := (Store.init.setOrAdd true true ⟨0,0⟩ 1 ⟨nodlFlagNotif,1⟩).2

def notifDescription : OpenEnv :=
  { oneDescription with loadNodlDir := fun _ nodls => (0,(nodls.setOrAdd true true .init 0 notifNodl).2) }

/-- A node of that description, after the section that is given. -/
def notifConf (first : ConfSection) : List (ConfSection × Answers) :=
  [first,confSection "base" [("nodl_dir","./nodl")],confSection "socket" [("type","snrf")],
    confSection "node" [("addr","1"),("nodl_id","0")]].map fun strukt => (strukt,goodAnswers)

def smsSection : ConfSection := confSection "sms" [("https_addr","127.0.0.1"),("https_port","443")]

theorem uses_opened_session : ∃ s, BanoBase.banoOpen notifDescription junkBase confInfo
    (some (notifConf smsSection)) = some (0,s) ∧
    ∀ linfo actions w, run (Site.step linfo) actions (.start s) = some w → ∀ use ∈ w.uses, use.Opened s := by
  obtain ⟨⟨err,s⟩,opened,view⟩ : ∃ r,
    BanoBase.banoOpen notifDescription junkBase confInfo (some (notifConf smsSection)) = some r ∧
      (r.1,r.2.isSms) = (0,true) := Option.map_eq_some_iff.mp rfl
  obtain ⟨rfl,session⟩ := Prod.mk.inj view
  exact ⟨s,opened,(uses_opened_iff opened).mpr (.inl session)⟩

def notifSet : Action := .service (.loop (.read 0 bareEnv (.msg ⟨msgOpSet,0,1,0,0,1,5⟩)))

theorem sms_unopened : ¬∀ env junk info conf s linfo actions w,
    BanoBase.banoOpen env junk info (some conf) = some (0,s) →
    run (Site.step linfo) actions (.start s) = some w → ∀ use ∈ w.uses, use.Opened s := by
  intro allowed
  obtain ⟨⟨err,s⟩,opened,view⟩ : ∃ r,
    BanoBase.banoOpen notifDescription junkBase confInfo (some (notifConf (confSection "cam"
      [("fmt","yuyv_320_240")]))) = some r ∧
        (r.1,r.2.isSms,(run (Site.step bareLoop) [notifSet] (.start r.2)).map Site.uses) =
      (0,false,some [.smsSend 5]) := Option.map_eq_some_iff.mp rfl
  obtain ⟨rfl,closed,sent⟩ : err = 0 ∧ s.isSms = false ∧
    (run (Site.step bareLoop) [notifSet] (.start s)).map Site.uses =
    some [.smsSend 5] := by simpa using view
  obtain ⟨w,ran,uses⟩ := Option.map_eq_some_iff.mp sent
  have session : s.isSms = true := allowed _ _ _ _ s bareLoop _ w opened ran (.smsSend 5) (by simp [uses])
  exact nomatch closed.symm.trans session

end Bano
