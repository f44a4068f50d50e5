import Bano.ClearFrames
import Bano.Http

/-! Which keys the store of a node may hold. A SET is stored under the keys of the description; a
reset by an HTTP client is stored under any key. -/
namespace Bano

open Lib

/-- Every key that the store of a node with a description holds is one of the description. -/
def Described (b : Base) : Prop :=
  ∀ p n nodl, b.nodeMem.cell p = some n → n.nodl = some nodl → ∀ k, n.keyvalPairs.lookup k ≠ none →
    ∃ key : U16, k = key.setWidth 32 ∧ (banoNodlFindKey nodl key).isSome

/-- No value was stored yet. -/
def Unstored (b : Base) : Prop := ∀ p n, b.nodeMem.cell p = some n → ∀ k, n.keyvalPairs.lookup k = none

/-- A reset of a node with a description is of one of its keys, or finds no memory for a new pair. -/
def Service.OfDescription : Service → Loop → Prop
  | .http _ env msg, s => msg.op = .rst → ∀ node n nodl, findNodeByAddr s.base msg.naddr = some (some node) →
      s.base.nodeMem.cell node = some n → n.nodl = some nodl →
      (banoNodlFindKey nodl msg.key).isSome ∨ (env.mallocPair && env.mallocPairItem) = false
  | .loop _, _ => True

theorem Unstored.described (unstored : Unstored b) : Described b := by
  intro p n nodl cell _ k held
  exact absurd (unstored p n cell k) held

theorem Described.calm (described : Described b) (calm : Calm b b') : Described b' := by
  intro p n' nodl cell' own k held
  obtain ⟨n,cell,same⟩ := calm.face p n' cell'
  obtain ⟨_,_,_,nodls,pairs⟩ := face_fields same
  exact described p n nodl cell (nodls ▸ own) k (pairs ▸ held)

/-- A key is added only if it is one of the description, or if there is no description. -/
theorem Described.write {pairs : Store NodeVal} (described : Described b) (cell : b.nodeMem.cell node = some n)
    (written : ∀ nodl, n.nodl = some nodl → ∀ k, pairs.lookup k ≠ none →
      n.keyvalPairs.lookup k ≠ none ∨ ∃ key : U16, k = key.setWidth 32 ∧ (banoNodlFindKey nodl key).isSome)
    (nodeMem : ∀ p, b'.nodeMem.cell p = if p = node then some { n with keyvalPairs := pairs } else b.nodeMem.cell p) :
    Described b' := by
  intro p n' nodl cell' own k held
  rw [nodeMem] at cell'
  split at cell'
  · obtain rfl := Option.some.inj cell'
    rcases written nodl own k held with before | described'
    · exact described node n nodl cell own k before
    · exact described'
  · exact described p n' nodl cell' own k held

theorem storedPairs_keys (own : n.nodl = some nodl) (held : (storedPairs env n msg).lookup k ≠ none) :
    n.keyvalPairs.lookup k ≠ none ∨ ∃ key : U16, k = key.setWidth 32 ∧ (banoNodlFindKey nodl key).isSome := by
  unfold storedPairs at held
  split at held
  · next stored =>
    rw [Store.lookup_setOrAdd] at held
    split at held
    · next here =>
      simp only [stores,own,Option.all_some,Bool.and_eq_true] at stored
      exact .inr ⟨msg.key,here.1,stored.2⟩
    · exact .inl held
  · exact .inl held

theorem resetPairs_keys (inside : (banoNodlFindKey nodl key).isSome ∨ (env.mallocPair && env.mallocPairItem) = false)
    (held : (resetPairs env n key).lookup k ≠ none) : n.keyvalPairs.lookup k ≠ none ∨
      ∃ key : U16, k = key.setWidth 32 ∧ (banoNodlFindKey nodl key).isSome := by
  rw [resetPairs,Store.lookup_setOrAdd] at held
  split at held
  · next here =>
    rcases inside with inside | fails
    · exact .inr ⟨key,here.1,inside⟩
    · rw [fails] at here
      exact .inl (here.1 ▸ here.2.resolve_left (by simp))
  · exact .inl held

theorem Described.addPair (described : Described b) (cell : b.nodeMem.cell node = some n)
    (env : FrameEnv) (msg : BanoMsg) :
    Described (addPair env b node n msg) :=
  described.write cell (fun _ own _ held => storedPairs_keys own held) (addPair_nodeMem cell)

theorem Described.registered (described : Described b) (nodes : LinkedList Ptr) (addr : U32) (socket : Ptr) :
    Described (registered b nodes addr socket) := by
  intro p n nodl cell own k held
  by_cases here : p = b.nodeMem.next
  · subst here
    obtain rfl := Option.some.inj ((Heap.alloc_cell_next _ _).symm.trans cell)
    exact nomatch own
  · exact described p n nodl ((Heap.alloc_cell_other here _).symm.trans cell) own k held

theorem Described.heard (described : Described b) (heard : Heard env socket m b b') : Described b' := by
  cases heard with
  | other calm _ => exact described.calm calm
  | known _ cell _ calm => exact (described.addPair cell env m).calm calm
  | @new nodes _ _ _ unset set =>
    have start := described.registered nodes m.saddr socket
    by_cases op : m.op = msgOpSet
    · exact (start.addPair (Heap.alloc_cell_next _ _) env m).calm (set op)
    · exact start.calm (unset op)

theorem Described.rst (described : Described b)
    (allowed : ∀ node n nodl, findNodeByAddr b msg.naddr = some (some node) →
      b.nodeMem.cell node = some n → n.nodl = some nodl →
      (banoNodlFindKey nodl msg.key).isSome ∨ (env.mallocPair && env.mallocPairItem) = false)
    (rst : msg.op = .rst) (result : handleHttpdMsg env b msg = some (err,b')) : Described b' := by
  rcases handleHttpdMsg_rst rst result with ⟨_,rfl⟩ | ⟨node,n,search,cell,rfl⟩
  · exact described
  · exact described.write cell (fun nodl own k held => resetPairs_keys (allowed node n nodl search cell own) held)
      (setNode_nodeMem cell _)

theorem Described.step (described : Described s.base) (allowed : service.OfDescription s)
    (taken : Service.step linfo service s = some s') : Described s'.base := by
  cases service with
  | loop label =>
    rcases step_heard taken with ⟨_,calm⟩ | ⟨_,_,_,_,heard⟩
    · exact described.calm calm
    · exact described.heard heard
  | http li env msg =>
    obtain ⟨err,b,handled,rfl⟩ := service_http taken
    by_cases rst : msg.op = .rst
    · exact described.rst (allowed rst) rst handled
    · exact described.calm (handleHttpdMsg_calm rst handled)

/-- In a run whose resets are of described keys, every stored key is a described key. -/
theorem stored_described (unstored : Unstored b)
    (reach : Reach (Service.step linfo) Service.OfDescription ⟨b,none,.idle⟩ services s) : Described s.base :=
  reach.invariant (fun s => Described s.base) unstored.described fun _ _ _ described allowed taken =>
    described.step allowed taken

/-- The door with an HTTP socket. -/
def servedDoor : Base :=
  { doorBase with
    sockets := (doorBase.sockets.addTail true 1).2
    socketMem := doorBase.socketMem.alloc ⟨.httpd⟩ }

theorem servedDoor_idle : Idle servedDoor :=
  (banoAddSocket_idle doorBase_idle (show banoAddSocket true true doorBase .httpd = some (0,servedDoor) from rfl)).1

theorem servedDoor_unstored : Unstored servedDoor := by
  intro p n cell k
  have noPairs : doorNode.keyvalPairs = .init := (infoNode_fields doorInfo).2.2.2
  have only : ∀ q, servedDoor.nodeMem.cell q = if q = 0 then some doorNode else none := fun _ => rfl
  rw [only] at cell
  split at cell
  · obtain rfl := Option.some.inj cell
    simp [noPairs]
  · exact nomatch cell

def httpEnv : HttpEnv := ⟨0,⟨0,0⟩,junkIo,0,none,true,true,true,true,true⟩

/-- A reset of a key of the node. -/
def resetKey (key : U16) : Service := .http 1 httpEnv ⟨.rst,0xa5a5a5a5,key,0,0⟩

theorem stored_described_door : ∃ s, run (Service.step bareLoop) [resetKey 1] ⟨servedDoor,none,.idle⟩ = some s ∧
    (s.base.nodeMem.cell 0).isSome ∧ Described s.base := by
  obtain ⟨s,ran,live⟩ : ∃ s, run (Service.step bareLoop) [resetKey 1] ⟨servedDoor,none,.idle⟩ = some s ∧
      (s.base.nodeMem.cell 0).isSome = true := Option.map_eq_some_iff.mp rfl
  have reach : Reach (Service.step bareLoop) Service.OfDescription ⟨servedDoor,none,.idle⟩ [resetKey 1] s := by
    refine .extend .start (fun _ node n nodl search cell own => .inl ?_) ran
    obtain rfl : 0 = node := by
      have found : findNodeByAddr servedDoor 0xa5a5a5a5 = some (some 0) := by decide
      exact Option.some.inj (Option.some.inj (found.symm.trans search))
    obtain rfl : doorNode = n := Option.some.inj cell
    obtain rfl : oneKey = nodl := Option.some.inj own
    decide
  exact ⟨s,ran,live,stored_described servedDoor_unstored reach⟩

theorem reset_undescribed : ¬∀ linfo b services s, Idle b → Unstored b →
    run (Service.step linfo) services ⟨b,none,.idle⟩ = some s → Described s.base := by
  intro allDescribed
  obtain ⟨s,ran,view⟩ : ∃ s, run (Service.step bareLoop) [resetKey 7] ⟨servedDoor,none,.idle⟩ = some s ∧
      (s.base.nodeMem.cell 0).map (fun n => (n.nodl,n.keyvalPairs.lookup 7)) = some (some oneKey,some ⟨0,0⟩) :=
    Option.map_eq_some_iff.mp rfl
  obtain ⟨n,cell,fields⟩ := Option.map_eq_some_iff.mp view
  obtain ⟨own,held⟩ := Prod.mk.inj fields
  have described := allDescribed bareLoop servedDoor _ s servedDoor_idle servedDoor_unstored ran
  obtain ⟨key,same,found⟩ := described 0 n oneKey cell own 7 (fun none => nomatch held.symm.trans none)
  obtain rfl : key = 7 := by
    have narrow := congrArg (BitVec.setWidth 16) same
    rw [BitVec.setWidth_setWidth_of_le _ (by decide),BitVec.setWidth_eq] at narrow
    exact narrow.symm
  exact absurd found (by decide)

end Bano
