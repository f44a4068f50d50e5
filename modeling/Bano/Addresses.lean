import Bano.Described
import Bano.Sections

/-! Which addresses the nodes of a base have. A frame registers no
address twice; a configuration lists what it likes. -/
namespace Bano

open Lib

/-- The addresses of the nodes of the base, a node that was released having none. -/
def nodeAddrs (b : Base) : List U32 := b.nodes.entries.filterMap fun e => (b.nodeMem.cell e.2).map BanoNode.addr

/-- The listed nodes were handed out by the node memory. -/
def KnownNodes (b : Base) : Prop := ∀ e ∈ b.nodes.entries, e.2 < b.nodeMem.next

/-- No address is that of two nodes, and who looks an address up finds the one node that has it. -/
structure OneNodeEach (b : Base) : Prop where
  nodup : (nodeAddrs b).Nodup
  found : ∀ addr node, findNodeByAddr b addr = some (some node) →
    ∀ e ∈ b.nodes.entries, ∀ n, b.nodeMem.cell e.2 = some n → n.addr = addr → e.2 = node

/-- The address that a section adds. -/
def sectionAddr (strukt : ConfSection) : Option U32 := if strukt.kind = some .node
    then pairsAddr strukt.pairs else none

/-- The addresses of the node sections, where the configuration is read. -/
def confAddrs (info : BanoBaseInfo) (conf : List (ConfSection × Answers)) : List U32 :=
  if info.flags &&& baseFlagConf ≠ 0 then conf.filterMap fun x => sectionAddr x.1 else []

theorem findNodeByAddr_none (result : findNodeByAddr b addr = some none) :
    ∀ e ∈ b.nodes.entries, ∃ n, b.nodeMem.cell e.2 = some n ∧ n.addr ≠ addr := by
  obtain ⟨⟨err,found⟩,visited,same⟩ := Option.bind_eq_some_iff.mp result
  obtain rfl := Option.some.inj same
  rw [LinkedList.foreach_visit] at visited
  revert visited
  induction b.nodes.entries with
  | nil => simp
  | cons e es ih =>
    intro visited
    obtain ⟨⟨stop,mid⟩,called,rest⟩ := Option.bind_eq_some_iff.mp visited
    obtain ⟨n,cell,called⟩ := Option.bind_eq_some_iff.mp called
    by_cases same : n.addr = addr
    · obtain ⟨rfl,rfl⟩ : (-1 : Int) = stop ∧ some e.2 = mid := by simpa [same] using called
      simp at rest
    · obtain ⟨rfl,rfl⟩ : (0 : Int) = stop ∧ none = mid := by simpa [same] using called
      intro d member
      rcases List.mem_cons.mp member with rfl | later
      · exact ⟨n,cell,same⟩
      · exact ih rest d later

theorem mem_nodeAddrs : addr ∈ nodeAddrs b ↔ ∃ e ∈ b.nodes.entries, ∃ n, b.nodeMem.cell e.2 = some n ∧
    n.addr = addr := by
  simp [nodeAddrs,List.mem_filterMap,Option.map_eq_some_iff]

theorem filterMap_apart {xs : List α} {f : α → Option β} (nodup : (xs.filterMap f).Nodup)
    (inX : x ∈ xs) (inY : y ∈ xs)
    (ofX : f x = some b) (ofY : f y = some b) : x = y := by
  induction xs with
  | nil => exact nomatch inX
  | cons z xs ih =>
    cases ofZ : f z with
    | none =>
      rw [List.filterMap_cons_none ofZ] at nodup
      refine ih nodup (List.mem_of_ne_of_mem ?_ inX) (List.mem_of_ne_of_mem ?_ inY) <;> rintro rfl <;> simp [ofZ] at *
    | some c =>
      rw [List.filterMap_cons_some ofZ] at nodup
      obtain ⟨fresh,nodup⟩ := List.nodup_cons.mp nodup
      have later : ∀ {w}, w ∈ xs → f w = some b → c ≠ b := by
        rintro w member ofW rfl
        exact fresh (List.mem_filterMap.mpr ⟨w,member,ofW⟩)
      rcases List.mem_cons.mp inX with rfl | laterX <;> rcases List.mem_cons.mp inY with rfl | laterY
      · rfl
      · exact absurd (Option.some.inj (ofZ.symm.trans ofX)) (later laterY ofY)
      · exact absurd (Option.some.inj (ofZ.symm.trans ofY)) (later laterX ofX)
      · exact ih nodup laterX laterY

/-- A look-up finds the one node of its address. -/
theorem OneNodeEach.of_nodup (nodup : (nodeAddrs b).Nodup) : OneNodeEach b := by
  refine ⟨nodup,fun addr node search e member n cell same => ?_⟩
  obtain ⟨⟨li,listed⟩,n',cell',same'⟩ := findNodeByAddr_mem search
  have ofE : (b.nodeMem.cell e.2).map BanoNode.addr = some addr := by rw [cell,Option.map_some,same]
  have ofFound : (b.nodeMem.cell node).map BanoNode.addr = some addr := by rw [cell',Option.map_some,same']
  have one : e = (li,node) := filterMap_apart nodup member listed ofE ofFound
  rw [one]

theorem filterMap_sublist {f g : α → Option β} (kept : ∀ x b, f x = some b → g x = some b) (xs : List α) :
    (xs.filterMap f).Sublist (xs.filterMap g) := by
  induction xs with
  | nil => exact List.Sublist.refl _
  | cons x xs ih =>
    cases here : f x with
    | none =>
      rw [List.filterMap_cons_none here]
      exact ih.trans ((List.sublist_cons_self x xs).filterMap g)
    | some b =>
      rw [List.filterMap_cons_some here,List.filterMap_cons_some (kept x b here)]
      exact ih.cons_cons b

/-- The addresses are those before, or fewer. -/
theorem Calm.sublist_nodeAddrs (calm : Calm b b') : (nodeAddrs b').Sublist (nodeAddrs b) := by
  refine (filterMap_sublist (fun e addr here => ?_) _).trans (calm.nodes.filterMap _)
  obtain ⟨n',cell',rfl⟩ := Option.map_eq_some_iff.mp here
  obtain ⟨n,cell,same⟩ := calm.face e.2 n' cell'
  rw [cell,Option.map_some,(face_fields same).2.1]

theorem setNode_nodeAddrs {b : Base} (cell : b.nodeMem.cell node = some n) (same : n'.addr = n.addr) :
    nodeAddrs (b.setNode node n') = nodeAddrs b := by
  refine congrArg (fun f => b.nodes.entries.filterMap f) (funext fun e => ?_)
  rw [setNode_nodeMem cell]
  split
  · next here => rw [here,cell,Option.map_some,Option.map_some,same]
  · rfl

/-- A new node is listed last. -/
theorem nodeAddrs_append {b b' : Base} (known : KnownNodes b)
    (entries : b'.nodes.entries = b.nodes.entries ++ [(li,b.nodeMem.next)])
    (nodeMem : b'.nodeMem = b.nodeMem.alloc n) : nodeAddrs b' = nodeAddrs b ++ [n.addr] := by
  have old : b.nodes.entries.filterMap (fun e => (b'.nodeMem.cell e.2).map BanoNode.addr) = nodeAddrs b := by
    apply List.filterMap_congr
    intro e member
    rw [nodeMem,Heap.alloc_cell_other (Nat.ne_of_lt (known e member))]
  rw [nodeAddrs,entries,List.filterMap_append,old]
  simp [nodeMem]

theorem knownNodes_append {b b' : Base} (known : KnownNodes b)
    (entries : b'.nodes.entries = b.nodes.entries ++ [(li,b.nodeMem.next)])
    (nodeMem : b'.nodeMem = b.nodeMem.alloc n) : KnownNodes b' := by
  intro e member
  rw [nodeMem,Heap.alloc_next]
  rw [entries] at member
  rcases List.mem_append.mp member with old | new
  · exact Nat.lt_succ_of_lt (known e old)
  · obtain rfl := List.mem_singleton.mp new
    exact Nat.lt_succ_self _

/-- No two listed nodes have the same address. -/
structure Apart (b : Base) : Prop where
  known : KnownNodes b
  nodup : (nodeAddrs b).Nodup

namespace Apart

theorem calm (apart : Apart b) (calm : Calm b b') : Apart b' := by
  refine ⟨fun e member => ?_,apart.nodup.sublist calm.sublist_nodeAddrs⟩
  rw [calm.next]
  exact apart.known e (calm.nodes.subset member)

theorem setNode {b : Base} (apart : Apart b) (cell : b.nodeMem.cell node = some n) (same : n'.addr = n.addr) :
    Apart (b.setNode node n') := ⟨apart.known,by rw [setNode_nodeAddrs cell same]; exact apart.nodup⟩

theorem addPair {b : Base} (apart : Apart b) (cell : b.nodeMem.cell node = some n) (env : FrameEnv) (msg : BanoMsg) :
    Apart (addPair env b node n msg) := by
  rw [addPair_eq cell]
  have stored : Apart (b.setNode node { n with keyvalPairs := storedPairs env n msg }) := apart.setNode cell rfl
  exact ⟨stored.known,stored.nodup⟩

/-- An address is registered once it was looked up and not found. -/
theorem registered (apart : Apart b) (unknown : findNodeByAddr b addr = some none)
    (entries : nodes.entries = b.nodes.entries ++ [(li,b.nodeMem.next)]) (socket : Ptr) :
    Apart (registered b nodes addr socket) := by
  refine ⟨knownNodes_append apart.known entries rfl,?_⟩
  rw [nodeAddrs_append apart.known entries rfl,List.nodup_append]
  refine ⟨apart.nodup,List.nodup_singleton _,?_⟩
  rintro a member _ new rfl
  obtain ⟨e,listed,n,cell,same⟩ := mem_nodeAddrs.mp member
  obtain ⟨n',cell',other⟩ := findNodeByAddr_none unknown e listed
  obtain rfl := Option.some.inj (cell.symm.trans cell')
  exact other (same.trans (List.mem_singleton.mp new))

theorem heard (apart : Apart b) (heard : Heard env socket m b b') : Apart b' := by
  cases heard with
  | other calm _ => exact apart.calm calm
  | known _ cell _ calm => exact (apart.addPair cell env m).calm calm
  | @new nodes unknown _ entries unset set =>
    have start := apart.registered unknown entries socket
    by_cases op : m.op = msgOpSet
    · exact (start.addPair (Heap.alloc_cell_next _ _) env m).calm (set op)
    · exact start.calm (unset op)

theorem step (apart : Apart s.base) (taken : Service.step linfo service s = some s') : Apart s'.base := by
  cases service with
  | loop label =>
    rcases step_heard taken with ⟨_,calm⟩ | ⟨_,_,_,_,heard⟩
    · exact apart.calm calm
    · exact apart.heard heard
  | http li env msg =>
    obtain ⟨err,b,handled,rfl⟩ := service_http taken
    by_cases rst : msg.op = .rst
    · rcases handleHttpdMsg_rst rst handled with ⟨_,rfl⟩ | ⟨node,n,_,cell,rfl⟩
      · exact apart
      · exact apart.setNode cell rfl
    · exact apart.calm (handleHttpdMsg_calm rst handled)

end Apart

theorem Sets.addresses (sets : Sets strukt 0 b b') (known : KnownNodes b) :
    KnownNodes b' ∧ nodeAddrs b' = nodeAddrs b ++ (sectionAddr strukt).toList := by
  cases sets with
  | settings other same =>
    rw [same,sectionAddr,if_neg (other rfl)]
    exact ⟨known,(List.append_nil _).symm⟩
  | socket type sockets other _ same =>
    rw [same,sectionAddr,if_neg other]
    exact ⟨known,(List.append_nil _).symm⟩
  | node n nodes node addr _ _ _ entries same =>
    subst same
    rw [sectionAddr,if_pos node,addr]
    exact ⟨knownNodes_append known entries rfl,nodeAddrs_append known entries rfl⟩
  | dropped n failed _ => exact absurd rfl failed

theorem applyStructs_addresses (result : applyStructs env conf s = some (0,s')) (known : KnownNodes s.base) :
    KnownNodes s'.base ∧ nodeAddrs s'.base = nodeAddrs s.base ++ conf.filterMap fun x => sectionAddr x.1 := by
  induction conf generalizing s with
  | nil =>
    obtain rfl := (Prod.mk.inj (Option.some.inj result)).2
    exact ⟨known,(List.append_nil _).symm⟩
  | cons x conf ih =>
    obtain ⟨⟨err,mid⟩,applied,rest⟩ := Option.bind_eq_some_iff.mp result
    have sets :=
      (applied ▸ applyStruct_application env x.1 x.2 s : Application env x.1 x.2 s (some (err,mid))).sets_base
    dsimp only at rest
    split at rest
    · next failed => exact absurd (Prod.mk.inj (Option.some.inj rest)).1 failed
    · next fine =>
      obtain rfl := not_not.mp fine
      obtain ⟨known',addrs⟩ := sets.addresses known
      obtain ⟨known'',addrs'⟩ := ih rest known'
      refine ⟨known'',addrs'.trans ?_⟩
      rw [addrs,List.append_assoc]
      apply congrArg _
      cases added : sectionAddr x.1 <;> simp [added]

theorem banoOpen_addresses (opened : BanoBase.banoOpen env junk info (some conf) = some (0,s)) :
    KnownNodes s.base ∧ nodeAddrs s.base = confAddrs info conf := by
  rw [confAddrs]
  have known : KnownNodes (BanoBase.initial junk info).base := fun _ member => nomatch member
  rcases BanoBase.banoOpen_applied opened with ⟨reads,applied⟩ | ⟨unread,rfl⟩
  · rw [if_pos reads]
    exact applyStructs_addresses applied known
  · rw [if_neg (not_not.mpr unread)]
    exact ⟨known,rfl⟩

/-- After a configuration that is accepted, no two nodes ever have the same
address if and only if the node sections have different addresses. -/
theorem oneNodeEach_iff (opened : BanoBase.banoOpen env junk info (some conf) = some (0,s)) :
    (∀ linfo services t, run (Service.step linfo) services ⟨s.base,none,.idle⟩ = some t → OneNodeEach t.base) ↔
    (confAddrs info conf).Nodup := by
  obtain ⟨known,addrs⟩ := banoOpen_addresses opened
  rw [← addrs]
  constructor
  · intro unique
    exact (unique ⟨false,false,false,false,0⟩ [] _ rfl).nodup
  · intro nodup linfo services t ran
    have reach : Reach (Service.step linfo) (fun _ _ => True) ⟨s.base,none,.idle⟩ services t := .of_run (by simp) ran
    have apart := reach.invariant (fun u => Apart u.base) ⟨known,nodup⟩ fun _ _ _ apart _ taken => apart.step taken
    exact .of_nodup apart.nodup

/-- Two nodes on a socket. -/
def nodesConf (one other : String) : List (ConfSection × Answers) :=
  [confSection "base" [("nodl_dir","./nodl")],confSection "socket" [("type","snrf")],
    confSection "node" [("addr",one),("nodl_id","0")],
        confSection "node" [("addr",other),("nodl_id","0")]].map fun strukt =>
      (strukt,goodAnswers)

theorem oneNodeEach_two : ∃ s, BanoBase.banoOpen oneDescription junkBase confInfo
    (some (nodesConf "1" "0x2")) = some (0,s) ∧
    ∀ linfo services t, run (Service.step linfo) services ⟨s.base,none,.idle⟩ = some t → OneNodeEach t.base := by
  obtain ⟨⟨err,s⟩,opened,same⟩ : ∃ r,
    BanoBase.banoOpen oneDescription junkBase confInfo (some (nodesConf "1" "0x2")) = some r ∧
      r.1 = 0 := Option.map_eq_some_iff.mp rfl
  obtain rfl := same
  exact ⟨s,opened,(oneNodeEach_iff opened).mpr (by decide)⟩

theorem addresses_twice : ¬∀ env junk info conf s linfo services t,
    BanoBase.banoOpen env junk info (some conf) = some (0,s) →
    run (Service.step linfo) services ⟨s.base,none,.idle⟩ = some t → OneNodeEach t.base := by
  intro unique
  obtain ⟨⟨err,s⟩,opened,view⟩ : ∃ r,
    BanoBase.banoOpen oneDescription junkBase confInfo (some (nodesConf "1" "1")) = some r ∧
      (r.1,nodeAddrs r.2.base) = (0,[1,1]) := Option.map_eq_some_iff.mp rfl
  obtain ⟨rfl,addrs⟩ := Prod.mk.inj view
  have each := unique oneDescription junkBase confInfo _ s bareLoop [] _ opened rfl
  have nodup := each.nodup
  rw [addrs] at nodup
  exact absurd nodup (by decide)

end Bano
