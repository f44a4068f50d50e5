import Bano.Base

/-! What releasing ios, nodes and sockets does to the base. -/
namespace Bano

open Lib

/-- The base without the io. -/
def released (b : Base) (io : Ptr) : Base :=
  { b with ioMem := b.ioMem.erase io, trace := b.trace ++ [.released io] }

theorem banoFreeIo_cases (result : banoFreeIo b io = some b') :
    b' = released b io ∧ ∃ r, b.ioMem.cell io = some r := by
  obtain ⟨ioMem,freed,same⟩ := Option.bind_eq_some_iff.mp result
  obtain ⟨live,rfl⟩ := Heap.free_eq_some.mp freed
  exact ⟨(Option.some.inj same).symm,live⟩

theorem banoFreeIo_live {b : Base} (cell : b.ioMem.cell io = some r) : banoFreeIo b io = some (released b io) := by
  simp [banoFreeIo,Heap.free_live cell,released,Base.emit]

/-- Exactly these nodes and ios are released, each io once. -/
structure Released (b b' : Base) (nodes ios : List Ptr) : Prop where
  same : b' = { b with nodeMem := b'.nodeMem, ioMem := b'.ioMem, trace := b.trace ++ ios.map .released }
  ioNext : b'.ioMem.next = b.ioMem.next
  node : ∀ p, b'.nodeMem.cell p = if p ∈ nodes then none else b.nodeMem.cell p
  io : ∀ p, b'.ioMem.cell p = if p ∈ ios then none else b.ioMem.cell p
  live : ∀ io ∈ ios, ∃ r, b.ioMem.cell io = some r
  apart : ios.Nodup

theorem Released.refl (b : Base) : Released b b [] [] := by
  constructor <;> simp

theorem Released.trans (one : Released a b nodes ios) (other : Released b c nodes' ios') :
    Released a c (nodes ++ nodes') (ios ++ ios') := by
  have kept : ∀ io ∈ ios', io ∉ ios ∧ ∃ r, a.ioMem.cell io = some r := by
    intro io member
    obtain ⟨r,cell⟩ := other.live io member
    rw [one.io] at cell
    split at cell
    · simp at cell
    · next outside => exact ⟨outside,r,cell⟩
  refine ⟨?_,other.ioNext.trans one.ioNext,?_,?_,?_,?_⟩
  · rw [other.same,one.same]
    simp only [List.map_append,List.append_assoc]
  · intro p
    rw [other.node,one.node]
    by_cases here : p ∈ nodes <;> by_cases there : p ∈ nodes' <;> simp [here,there]
  · intro p
    rw [other.io,one.io]
    by_cases here : p ∈ ios <;> by_cases there : p ∈ ios' <;> simp [here,there]
  · intro io member
    rcases List.mem_append.mp member with early | late
    · exact one.live io early
    · exact (kept io late).2
  · refine List.nodup_append.mpr ⟨one.apart,other.apart,?_⟩
    rintro io early _ late rfl
    exact (kept io late).1 early

theorem released_io {b : Base} (cell : b.ioMem.cell io = some r) : Released b (released b io) [] [io] := by
  refine ⟨rfl,rfl,by simp [released],?_,by simp [cell],by simp⟩
  intro p
  by_cases here : p = io <;> simp [released,here]

theorem freeIoItems_released (result : freeIoItems es b = some b') : Released b b' [] (es.map Prod.snd) := by
  induction es generalizing b with
  | nil =>
    obtain rfl := Option.some.inj result
    exact .refl b
  | cons e es ih =>
    obtain ⟨mid,first,rest⟩ := Option.bind_eq_some_iff.mp result
    obtain ⟨rfl,r,cell⟩ := banoFreeIo_cases first
    exact (released_io cell).trans (ih rest)

theorem freeIoItems_some (live : ∀ e ∈ es, ∃ r, b.ioMem.cell e.2 = some r) (apart : (es.map Prod.snd).Nodup) :
    ∃ b', freeIoItems es b = some b' := by
  induction es generalizing b with
  | nil => exact ⟨b,rfl⟩
  | cons e es ih =>
    obtain ⟨outside,apart⟩ := List.nodup_cons.mp apart
    obtain ⟨r,cell⟩ := live e List.mem_cons_self
    have later : ∀ d ∈ es, ∃ r, (released b e.2).ioMem.cell d.2 = some r := by
      intro d member
      obtain ⟨r,cell⟩ := live d (List.mem_cons_of_mem _ member)
      have other : d.2 ≠ e.2 := fun same => outside (same ▸ List.mem_map_of_mem member)
      exact ⟨r,by simp [released,other,cell]⟩
    obtain ⟨b',rest⟩ := ih later apart
    exact ⟨b',by simp [freeIoItems,banoFreeIo_live cell,rest]⟩

theorem banoNodeFree_released (result : banoNodeFree b node = some b') :
    ∃ n, b.nodeMem.cell node = some n ∧ Released b b' [node] (listedIos n) := by
  obtain ⟨n,cell,result⟩ := Option.bind_eq_some_iff.mp result
  obtain ⟨mid,posted,result⟩ := Option.bind_eq_some_iff.mp result
  obtain ⟨mid',pending,result⟩ := Option.bind_eq_some_iff.mp result
  obtain ⟨nodeMem,freed,same⟩ := Option.bind_eq_some_iff.mp result
  obtain ⟨_,rfl⟩ := Heap.free_eq_some.mp freed
  obtain rfl := Option.some.inj same
  have ios := (freeIoItems_released posted).trans (freeIoItems_released pending)
  rw [← List.map_append] at ios
  refine ⟨n,cell,?_,ios.ioNext,?_,ios.io,ios.live,ios.apart⟩
  · rw [ios.same]
    rfl
  · intro p
    by_cases here : p = node
    · simp [here]
    · simp [here,ios.node p]

theorem banoNodeFree_some {b : Base} (cell : b.nodeMem.cell node = some n)
    (live : ∀ i ∈ n.postedIos.entries ++ n.pendingIos.entries, ∃ r, b.ioMem.cell i.2 = some r)
    (apart : (listedIos n).Nodup) : ∃ b', banoNodeFree b node = some b' := by
  rw [listedIos,List.map_append] at apart
  obtain ⟨one,another,between⟩ := List.nodup_append.mp apart
  obtain ⟨mid,posted⟩ := freeIoItems_some (fun i member => live i (List.mem_append_left _ member)) one
  have first := freeIoItems_released posted
  have later : ∀ i ∈ n.pendingIos.entries, ∃ r, mid.ioMem.cell i.2 = some r := by
    intro i member
    obtain ⟨r,cell⟩ := live i (List.mem_append_right _ member)
    refine ⟨r,?_⟩
    rw [first.io,if_neg,cell]
    exact fun early => between _ early _ (List.mem_map_of_mem member) rfl
  obtain ⟨mid',pending⟩ := freeIoItems_some later another
  have cell' : mid'.nodeMem.cell node = some n := by
    rw [(freeIoItems_released pending).node,first.node]
    simpa using cell
  exact ⟨_,by simp [banoNodeFree,cell,posted,pending,Heap.free_live cell']; rfl⟩

theorem freeNodeItems_released (result : freeNodeItems es b = some b') :
    ∃ ios, Released b b' (es.map Prod.snd) ios ∧
      ∀ io ∈ ios, ∃ e ∈ es, ∃ n, b.nodeMem.cell e.2 = some n ∧ io ∈ listedIos n := by
  induction es generalizing b with
  | nil =>
    obtain rfl := Option.some.inj result
    exact ⟨[],.refl b,by simp⟩
  | cons e es ih =>
    obtain ⟨mid,first,rest⟩ := Option.bind_eq_some_iff.mp result
    obtain ⟨n,cell,one⟩ := banoNodeFree_released first
    obtain ⟨ios,others,origin⟩ := ih rest
    refine ⟨listedIos n ++ ios,one.trans others,fun io member => ?_⟩
    rcases List.mem_append.mp member with early | late
    · exact ⟨e,List.mem_cons_self,n,cell,early⟩
    · obtain ⟨d,listed,m,cell',inside⟩ := origin io late
      rw [one.node] at cell'
      split at cell'
      · simp at cell'
      · exact ⟨d,List.mem_cons_of_mem _ listed,m,cell',inside⟩

theorem freeNodeItems_some (node : ∀ e ∈ es, ∃ n, b.nodeMem.cell e.2 = some n) (apart : (es.map Prod.snd).Nodup)
    (io : ∀ e ∈ es, ∀ n, b.nodeMem.cell e.2 = some n → ∀ i ∈ n.postedIos.entries ++ n.pendingIos.entries,
      ∃ r, b.ioMem.cell i.2 = some r ∧ r.node = some e.2)
    (iosApart : ∀ e ∈ es, ∀ n, b.nodeMem.cell e.2 = some n → (listedIos n).Nodup) :
    ∃ b', freeNodeItems es b = some b' := by
  induction es generalizing b with
  | nil => exact ⟨b,rfl⟩
  | cons e es ih =>
    obtain ⟨outside,apart⟩ := List.nodup_cons.mp apart
    obtain ⟨n,cell⟩ := node e List.mem_cons_self
    obtain ⟨mid,first⟩ := banoNodeFree_some cell
      (fun i member => (io e List.mem_cons_self n cell i member).imp fun _ => And.left)
      (iosApart e List.mem_cons_self n cell)
    obtain ⟨n',cell',freed⟩ := banoNodeFree_released first
    obtain rfl := Option.some.inj (cell.symm.trans cell')
    have kept : ∀ d ∈ es, mid.nodeMem.cell d.2 = b.nodeMem.cell d.2 := by
      intro d member
      rw [freed.node,if_neg]
      intro here
      exact outside (List.mem_singleton.mp here ▸ List.mem_map_of_mem member)
    obtain ⟨b',rest⟩ := ih (b := mid) (fun d member => kept d member ▸ node d (List.mem_cons_of_mem _ member)) apart
      (by
        intro d member m live i listed
        obtain ⟨r,cell'',own⟩ := io d (List.mem_cons_of_mem _ member) m (kept d member ▸ live) i listed
        refine ⟨r,?_,own⟩
        rw [freed.io,if_neg,cell'']
        intro inside
        obtain ⟨j,listed',same⟩ := List.mem_map.mp inside
        obtain ⟨r',cellJ,own'⟩ := io e List.mem_cons_self n cell j listed'
        rw [same,cell''] at cellJ
        obtain rfl := Option.some.inj cellJ
        exact outside (Option.some.inj (own'.symm.trans own) ▸ List.mem_map_of_mem member))
      (fun d member m live => iosApart d (List.mem_cons_of_mem _ member) m (kept d member ▸ live))
    exact ⟨b',by simp [freeNodeItems,first,rest]⟩

end Bano
