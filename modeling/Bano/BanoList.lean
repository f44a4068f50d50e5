import Mathlib.Data.List.Nodup
import Mathlib.Data.List.Perm.Subperm
import Bano.Lib.Chain

/-! The linked list of bano_list.c over its own store of items. An operation has no result
when it follows a NULL or stale item pointer; `malloc` says whether its allocation succeeds. -/
namespace Bano

open Lib

abbrev Ptr := Nat

abbrev U32 := BitVec 32

structure BanoList (α : Type) where
  head : Option Ptr
  tail : Option Ptr
  items : Heap (Link α)

def banoListInit : BanoList α := ⟨none,none,Heap.empty⟩

def banoListIsEmpty (l : BanoList α) : Bool := l.head.isNone

def banoListAddTail (malloc : Bool) (l : BanoList α) (p : α) : Option (Int × BanoList α) :=
  if malloc then
    let i := l.items.next
    let items := l.items.alloc ⟨p,none,l.tail⟩
    match l.tail with
    | some t => do
      let items ← items.update t fun k => { k with next := some i }
      some (0,⟨l.head,some i,items⟩)
    | none => some (0,⟨some i,some i,items⟩)
  else some (-1,l)

def banoListAddHead (malloc : Bool) (l : BanoList α) (p : α) : Option (Int × BanoList α) :=
  if malloc then
    let i := l.items.next
    let items := l.items.alloc ⟨p,l.head,none⟩
    match l.head with
    | some h => do
      let items ← items.update h fun k => { k with prev := some i }
      some (0,⟨some i,l.tail,items⟩)
    | none => some (0,⟨some i,some i,items⟩)
  else some (-1,l)

/-- `it->prev` keeps the NULL of `alloc_item`. -/
def banoListAddBefore (malloc : Bool) (l : BanoList α) (itNext : Ptr) (p : α) :
    Option (Int × BanoList α) :=
  if malloc then do
    let it := l.items.next
    let items := l.items.alloc ⟨p,some itNext,none⟩
    if l.head = some itNext then
      let items ← items.update itNext fun k => { k with prev := some it }
      some (0,⟨some it,l.tail,items⟩)
    else
      let k ← items.cell itNext
      let before ← k.prev
      let items ← items.update before fun b => { b with next := some it }
      let items ← items.update itNext fun b => { b with prev := some it }
      some (0,⟨l.head,l.tail,items⟩)
  else some (-1,l)

def banoListDel (l : BanoList α) (i : Ptr) : Option (Int × BanoList α) := do
  let k ← l.items.cell i
  -- if (i->prev) i->prev->next = i->next; else l->head = i->next;
  let items ← l.items.updateOpt k.prev fun b => { b with next := k.next }
  let head := if k.prev.isSome then l.head else k.next
  -- if (i->next) i->next->prev = i->prev; else l->tail = i->prev;
  let items ← items.updateOpt k.next fun b => { b with prev := k.prev }
  let tail := if k.next.isSome then l.tail else k.prev
  let items ← items.free i
  some (0,⟨head,tail,items⟩)

/-- The callback gets the item and what it carries; the traversal stops at its first error. -/
def banoListForeachAt (items : Heap (Link α)) (fn : Ptr → α → σ → Option (Int × σ)) :
    Nat → Option Ptr → σ → Option (Int × σ)
  | 0, _, _ => none
  | _ + 1, none, p => some (0,p)
  | fuel + 1, some pos, p => do
    let k ← items.cell pos
    let (err,p) ← fn pos k.data p
    if err ≠ 0 then some (-1,p) else banoListForeachAt items fn fuel k.next p

def banoListForeach (l : BanoList α) (fn : Ptr → α → σ → Option (Int × σ)) (p : σ) : Option (Int × σ) :=
  banoListForeachAt l.items fn (l.items.next + 1) l.head p

/-- The forward links are right and the backward links are `ok`. -/
structure LinkedBy (ok : Option Ptr → Option Ptr → Prop) (l : BanoList α) (xs : List (Ptr × α)) : Prop where
  head : l.head = first xs none
  tail : l.tail = final none xs
  chain : Segment ok l.items none xs none
  nodup : (xs.map Prod.fst).Nodup

/-- Every backward link designates the predecessor. -/
def Exact (expected actual : Option Ptr) : Prop := actual = expected

/-- A backward link designates the predecessor or was left NULL. -/
def Half (expected actual : Option Ptr) : Prop := actual = expected ∨ actual = none

theorem exact_right (b : Option Ptr) : Exact b b := rfl

theorem half_right (b : Option Ptr) : Half b b := .inl rfl

abbrev Linked (l : BanoList α) (xs : List (Ptr × α)) : Prop := LinkedBy Exact l xs

theorem Linked.half {l : BanoList α} (linked : Linked l xs) : LinkedBy Half l xs :=
  ⟨linked.head,linked.tail,segment_mono linked.chain fun _ _ => Or.inl,linked.nodup⟩

theorem banoListInit_linked (ok) : LinkedBy ok (banoListInit : BanoList α) [] :=
  ⟨rfl,rfl,trivial,List.nodup_nil⟩

theorem LinkedBy.live {l : BanoList α} (linked : LinkedBy ok l xs) (member : e ∈ xs) :
    ∃ k, l.items.cell e.1 = some k ∧ k.data = e.2 := segment_live linked.chain member

theorem LinkedBy.ne_next {l : BanoList α} (linked : LinkedBy ok l xs) (member : e ∈ xs) :
    e.1 ≠ l.items.next := by
  obtain ⟨k,cell,_⟩ := linked.live member
  exact Heap.next_ne cell

theorem LinkedBy.length {l : BanoList α} (linked : LinkedBy ok l xs) : xs.length ≤ l.items.next := by
  have inside : xs.map Prod.fst ⊆ List.range l.items.next := by
    intro p member
    obtain ⟨e,listed,rfl⟩ := List.mem_map.mp member
    obtain ⟨k,cell,_⟩ := linked.live listed
    exact List.mem_range.mpr (Heap.lt_next cell)
  have bound := (List.subperm_of_subset linked.nodup inside).length_le
  simpa using bound

/-- What a traversal of the entries `xs` computes. -/
def visit (fn : Ptr → α → σ → Option (Int × σ)) : List (Ptr × α) → σ → Option (Int × σ)
  | [], p => some (0,p)
  | e :: xs, p => do
    let (err,p) ← fn e.1 e.2 p
    if err ≠ 0 then some (-1,p) else visit fn xs p

theorem banoListForeach_visit {l : BanoList α} (linked : LinkedBy ok l xs)
    (fn : Ptr → α → σ → Option (Int × σ)) (p : σ) : banoListForeach l fn p = visit fn xs p := by
  have walk : ∀ fuel before xs p, Segment ok l.items before xs none → xs.length < fuel →
      banoListForeachAt l.items fn fuel (first xs none) p = visit fn xs p := by
    intro fuel
    induction fuel with
    | zero => intro _ _ _ _ enough; omega
    | succ fuel ih =>
      intro before xs p chain enough
      cases xs with
      | nil => rfl
      | cons e xs =>
        obtain ⟨⟨back,cell,_⟩,rest⟩ := chain
        simp only [first_cons,banoListForeachAt,cell,visit,Option.bind_eq_bind,Option.bind_some]
        congr 1
        funext result
        rw [ih _ _ result.2 rest (by simp at enough; omega)]
  have enough := linked.length
  unfold banoListForeach
  rw [linked.head]
  exact walk _ _ _ _ linked.chain (by omega)

/-- A fresh item leaves the chain as it is. -/
theorem LinkedBy.alloc {l : BanoList α} (linked : LinkedBy ok l xs) (k : Link α) :
    Segment ok (l.items.alloc k) none xs none := by
  apply segment_congr linked.chain
  intro e member
  obtain ⟨d,cell,_⟩ := linked.live member
  rw [cell,Heap.alloc_cell_live cell]

theorem nodup_concat {xs : List (Ptr × α)} (nodup : (xs.map Prod.fst).Nodup)
    (fresh : ∀ e ∈ xs, e.1 ≠ p) : ((xs ++ [(p,a)]).map Prod.fst).Nodup := by
  rw [List.map_append,List.nodup_append]
  refine ⟨nodup,by simp,?_⟩
  intro q member r last same
  obtain ⟨e,inside,rfl⟩ := List.mem_map.mp member
  exact fresh e inside (by simpa using same.trans (by simpa using last))

/-- The other items of a list around one of them. -/
theorem nodup_apart {before rest : List (Ptr × α)}
    (nodup : ((before ++ (p,a) :: rest).map Prod.fst).Nodup) :
    (∀ e ∈ before, e.1 ≠ p) ∧ (∀ e ∈ rest, e.1 ≠ p) ∧ (∀ e ∈ before, ∀ d ∈ rest, e.1 ≠ d.1) := by
  simp only [List.map_append,List.map_cons,List.nodup_append,List.nodup_cons,List.mem_map,
    List.mem_cons] at nodup
  obtain ⟨_,⟨absent,_⟩,apart⟩ := nodup
  refine ⟨?_,?_,?_⟩
  · intro e member
    exact apart _ ⟨e,member,rfl⟩ _ (.inl rfl)
  · intro e member same
    exact absent ⟨e,member,same⟩
  · intro e member d inside
    exact apart _ ⟨e,member,rfl⟩ _ (.inr ⟨d,inside,rfl⟩)

theorem nodup_split {before rest : List (Ptr × α)}
    (nodup : ((before ++ (p,a) :: rest).map Prod.fst).Nodup) :
    ((before ++ rest).map Prod.fst).Nodup ∧ (rest.map Prod.fst).Nodup := by
  have smaller : (before ++ rest).Sublist (before ++ (p,a) :: rest) :=
    List.Sublist.append_left (List.sublist_cons_self _ _) _
  have suffix : rest.Sublist (before ++ (p,a) :: rest) :=
    (List.sublist_cons_self _ _).trans (List.sublist_append_right _ _)
  exact ⟨nodup.sublist (smaller.map _),nodup.sublist (suffix.map _)⟩

theorem filter_split {before rest : List (Ptr × α)}
    (nodup : ((before ++ (p,a) :: rest).map Prod.fst).Nodup) :
    (before ++ (p,a) :: rest).filter (fun e => e.1 ≠ p) = before ++ rest := by
  obtain ⟨apartB,apartR,_⟩ := nodup_apart nodup
  have keepB : before.filter (fun e => e.1 ≠ p) = before :=
    List.filter_eq_self.mpr fun e member => by simpa using apartB e member
  have keepR : rest.filter (fun e => e.1 ≠ p) = rest :=
    List.filter_eq_self.mpr fun e member => by simpa using apartR e member
  rw [List.filter_append,List.filter_cons_of_neg (by simp),keepB,keepR]

/-- An item of the list, with what stands around it. -/
theorem mem_split {xs : List (Ptr × α)} (member : p ∈ xs.map Prod.fst) :
    ∃ before a rest, xs = before ++ (p,a) :: rest := by
  obtain ⟨⟨q,a⟩,inside,rfl⟩ := List.mem_map.mp member
  obtain ⟨before,rest,rfl⟩ := List.append_of_mem inside
  exact ⟨before,a,rest,rfl⟩

theorem concat_cases (xs : List (Ptr × α)) : xs = [] ∨ ∃ ys p a, xs = ys ++ [(p,a)] := by
  rcases List.eq_nil_or_concat xs with rfl | ⟨ys,⟨p,a⟩,rfl⟩
  · exact .inl rfl
  · exact .inr ⟨ys,p,a,by simp⟩

/-- Appending to a chain, whatever its backward links are. -/
theorem banoListAddTail_linked (right : ∀ b, ok b b) {l : BanoList α} (linked : LinkedBy ok l xs)
    (a : α) : ∃ l', banoListAddTail true l a = some (0,l') ∧
      LinkedBy ok l' (xs ++ [(l.items.next,a)]) ∧ l'.items.next = l.items.next + 1 := by
  have chain := linked.alloc ⟨a,none,l.tail⟩
  have nodup := nodup_concat (a := a) linked.nodup fun e => linked.ne_next
  rcases concat_cases xs with rfl | ⟨ys,p,b,rfl⟩
  · have tail : l.tail = none := linked.tail
    simp only [banoListAddTail,tail,if_true]
    refine ⟨_,rfl,⟨rfl,rfl,⟨⟨none,?_,right _⟩,trivial⟩,nodup⟩,rfl⟩
    simp
  · have tail : l.tail = some p := by simpa using linked.tail
    obtain ⟨k,cell,_⟩ := linked.live (e := (p,b)) (by simp)
    have old := Heap.alloc_cell_live cell ⟨a,none,some p⟩
    have other : l.items.next ≠ p := (Heap.next_ne cell).symm
    have apart := (nodup_apart linked.nodup).1
    simp only [banoListAddTail,tail,if_true,Heap.update_live old]
    refine ⟨_,rfl,⟨?_,?_,?_,nodup⟩,rfl⟩
    · simp [linked.head]
    · simp
    · rw [tail] at chain
      refine segment_append.mpr ⟨?_,⟨some p,?_,?_⟩,trivial⟩
      · exact segment_extend chain apart _
      · simp [other]
      · simpa using right (some p)

/-- The cell of `e` designates `back` as its predecessor. -/
def BackLink (l : BanoList α) (e : Ptr × α) (back : Ptr) : Prop :=
  ∃ k, l.items.cell e.1 = some k ∧ k.data = e.2 ∧ k.prev = some back

theorem banoListAddHead_linked (right : ∀ b, ok b b) {l : BanoList α} (linked : LinkedBy ok l xs)
    (a : α) : ∃ l', banoListAddHead true l a = some (0,l') ∧
      LinkedBy ok l' ((l.items.next,a) :: xs) ∧ l'.items.next = l.items.next + 1 ∧
      ∀ e rest, xs = e :: rest → BackLink l' e l.items.next := by
  have nodup : (((l.items.next,a) :: xs).map Prod.fst).Nodup := by
    simp only [List.map_cons,List.nodup_cons,List.mem_map,not_exists,not_and]
    exact ⟨fun e member => linked.ne_next member,linked.nodup⟩
  cases xs with
  | nil =>
    have head : l.head = none := linked.head
    simp only [banoListAddHead,head,if_true]
    refine ⟨_,rfl,⟨rfl,rfl,⟨⟨none,?_,right _⟩,trivial⟩,nodup⟩,rfl,by simp⟩
    simp
  | cons e xs =>
    have head : l.head = some e.1 := linked.head
    have chain := linked.alloc ⟨a,some e.1,none⟩
    obtain ⟨k,cell,data⟩ := linked.live (e := e) (by simp)
    have old := Heap.alloc_cell_live cell ⟨a,some e.1,none⟩
    have other : l.items.next ≠ e.1 := (Heap.next_ne cell).symm
    have apart : ∀ d ∈ xs, d.1 ≠ e.1 :=
      (nodup_apart (show (([] ++ e :: xs).map Prod.fst).Nodup from linked.nodup)).2.1
    simp only [banoListAddHead,head,if_true,Heap.update_live old]
    refine ⟨_,rfl,⟨rfl,?_,⟨⟨none,?_,right _⟩,?_⟩,nodup⟩,rfl,?_⟩
    · simp [linked.tail]
    · simp [other]
    · exact segment_reback chain apart (right _)
    · rintro _ _ ⟨rfl,rfl⟩
      exact ⟨{ k with prev := some l.items.next },by simp [old],data,rfl⟩

/-- Inserting before the head is the one case in which `add_before` leaves no link unset. -/
theorem banoListAddBefore_head (right : ∀ b, ok b b) {l : BanoList α}
    (linked : LinkedBy ok l ((p,b) :: xs)) (a : α) :
    ∃ l', banoListAddBefore true l p a = some (0,l') ∧
      LinkedBy ok l' ((l.items.next,a) :: (p,b) :: xs) ∧ l'.items.next = l.items.next + 1 ∧
      BackLink l' (p,b) l.items.next := by
  obtain ⟨l',added,linked',next,back⟩ := banoListAddHead_linked right linked a
  refine ⟨l',?_,linked',next,back _ _ rfl⟩
  have head : l.head = some p := linked.head
  obtain ⟨k,cell,_⟩ := linked.live (e := (p,b)) (by simp)
  have old := Heap.alloc_cell_live cell ⟨a,some p,none⟩
  simpa only [banoListAddHead,banoListAddBefore,head,if_true,Heap.update_live old] using added

/-- Elsewhere the new item's backward link stays NULL. -/
theorem banoListAddBefore_middle (unset : ∀ b, ok b none) (right : ∀ b, ok b b) {l : BanoList α}
    (linked : LinkedBy ok l (ys ++ (q,c) :: (p,b) :: xs)) (a : α)
    (cell : l.items.cell p = some k) (back : k.prev = some q) :
    ∃ l', banoListAddBefore true l p a = some (0,l') ∧
      LinkedBy ok l' (ys ++ (q,c) :: (l.items.next,a) :: (p,b) :: xs) ∧
      l'.items.cell l.items.next = some ⟨a,some p,none⟩ ∧
      l'.items.next = l.items.next + 1 ∧ BackLink l' (p,b) l.items.next := by
  have chain := linked.alloc ⟨a,some p,none⟩
  obtain ⟨front,⟨back',qcell,allowed⟩,tail⟩ := segment_append.mp chain
  obtain ⟨kq,live,_⟩ := linked.live (e := (q,c)) (by simp)
  obtain ⟨kp,cell',data⟩ := linked.live (e := (p,b)) (by simp)
  obtain rfl : k = kp := Option.some.inj (cell.symm.trans cell')
  have qfresh : q ≠ l.items.next := Heap.next_ne live
  have pfresh : p ≠ l.items.next := Heap.next_ne cell
  have apartQ := nodup_apart linked.nodup
  have apartP := nodup_apart
    (show (((ys ++ [(q,c)]) ++ (p,b) :: xs).map Prod.fst).Nodup by simpa using linked.nodup)
  have qp : p ≠ q := apartQ.2.1 (p,b) (by simp)
  have notHead : l.head ≠ some p := by
    rw [linked.head]
    cases ys with
    | nil => simpa using qp.symm
    | cons e ys => simpa using apartP.1 e (by simp)
  let items := ((l.items.alloc ⟨a,some p,none⟩).modify q
    fun k => { k with next := some l.items.next }).modify p fun k => { k with prev := some l.items.next }
  refine ⟨⟨l.head,l.tail,items⟩,?_,⟨?_,?_,?_,?_⟩,?_,rfl,?_⟩
  · have old := Heap.alloc_cell_live cell ⟨a,some p,none⟩
    have oldQ := Heap.alloc_cell_live live ⟨a,some p,none⟩
    have oldP : ((l.items.alloc ⟨a,some p,none⟩).modify q
        fun k => { k with next := some l.items.next }).cell p = some k := by simp [qp,old]
    simp only [banoListAddBefore,if_true,if_neg notHead,old,back,Option.bind_eq_bind,
      Option.bind_some,Heap.update_live oldQ,Heap.update_live oldP]
    rfl
  · simp [linked.head]
  · simp [linked.tail]
  · refine segment_append.mpr ⟨?_,⟨back',?_,allowed⟩,⟨none,?_,unset _⟩,?_⟩
    · apply segment_congr front
      intro e member
      rw [Heap.modify_cell_other (apartP.1 e (by simp [member])),
        Heap.modify_cell_other (apartQ.1 e member)]
    · simp [items,qp.symm,qcell]
    · simp [items,qfresh.symm,pfresh.symm]
    · refine segment_reback (segment_congr tail ?_) apartP.2.1 (right _)
      exact fun e member => Heap.modify_cell_other (apartQ.2.1 e member) _ _
  · have listed : (ys ++ (q,c) :: (l.items.next,a) :: (p,b) :: xs).map Prod.fst =
        (ys ++ [(q,c)]).map Prod.fst ++ l.items.next :: ((p,b) :: xs).map Prod.fst := by simp
    have absent : l.items.next ∉ (ys ++ (q,c) :: (p,b) :: xs).map Prod.fst := by
      intro member
      obtain ⟨e,inside,same⟩ := List.mem_map.mp member
      exact linked.ne_next inside same
    rw [listed,List.nodup_middle,List.nodup_cons]
    exact ⟨by simpa using absent,by simpa using linked.nodup⟩
  · simp [items,qfresh.symm,pfresh.symm]
  · have old := Heap.alloc_cell_live cell ⟨a,some p,none⟩
    refine ⟨{ k with prev := some l.items.next },?_,data,rfl⟩
    simp [items,qp,old]

/-- On a list whose backward links may be unset, `add_before` either inserts or meets a NULL. -/
theorem banoListAddBefore_half {l : BanoList α} (linked : LinkedBy Half l (front ++ e :: rest)) (a : α) :
    banoListAddBefore true l e.1 a = none ∨
    ∃ l', banoListAddBefore true l e.1 a = some (0,l') ∧
      LinkedBy Half l' (front ++ (l.items.next,a) :: e :: rest) ∧ BackLink l' e l.items.next := by
  rcases concat_cases front with rfl | ⟨ys,q,c,rfl⟩
  · obtain ⟨l',added,linked',_,back⟩ := banoListAddBefore_head half_right linked a
    exact .inr ⟨l',added,linked',back⟩
  · have split : LinkedBy Half l (ys ++ (q,c) :: (e.1,e.2) :: rest) := by simpa using linked
    obtain ⟨_,⟨back,cell,backEq⟩,_⟩ := segment_append.mp linked.chain
    rcases backEq with backEq | unset
    · have prev : back = some q := by simpa using backEq
      obtain ⟨l',added,linked',_,_,back'⟩ :=
        banoListAddBefore_middle (fun _ => .inr rfl) half_right split a cell prev
      exact .inr ⟨l',added,by simpa using linked',back'⟩
    · left
      have apart := (nodup_apart linked.nodup).1
      have notHead : l.head ≠ some e.1 := by
        rw [linked.head]
        cases ys with
        | nil => simpa using apart (q,c) (by simp)
        | cons d ys => simpa using apart d (by simp)
      have old := Heap.alloc_cell_live cell ⟨a,some e.1,none⟩
      simp [banoListAddBefore,notHead,old,unset]

private theorem relink_prev {h : Heap (Link α)} (front : Segment ok h none kept after)
    (nodup : (kept.map Prod.fst).Nodup) (target : Option Ptr) :
    ∃ h', h.updateOpt (final none kept) (fun b => { b with next := target }) = some h' ∧
      Segment ok h' none kept target ∧ h'.next = h.next ∧
      ∀ p, (∀ e ∈ kept, e.1 ≠ p) → h'.cell p = h.cell p := by
  rcases concat_cases kept with rfl | ⟨ys,q,b,rfl⟩
  · exact ⟨h,rfl,trivial,rfl,fun _ _ => rfl⟩
  · obtain ⟨k,live,_⟩ := segment_live (e := (q,b)) front (by simp)
    simp only [final_append,final_cons,final_nil,Heap.updateOpt,Heap.update_live live]
    refine ⟨_,rfl,segment_extend front (nodup_apart nodup).1 _,rfl,?_⟩
    intro p apart
    exact Heap.modify_cell_other (apart (q,b) (by simp)).symm _ _

private theorem relink_next {h : Heap (Link α)} (chain : Segment ok h before rest none)
    (nodup : (rest.map Prod.fst).Nodup) (back : Option Ptr) (allowed : ok back back) :
    ∃ h', h.updateOpt (first rest none) (fun b => { b with prev := back }) = some h' ∧
      Segment ok h' back rest none ∧ h'.next = h.next ∧
      ∀ p, (∀ e ∈ rest, e.1 ≠ p) → h'.cell p = h.cell p := by
  cases rest with
  | nil => exact ⟨h,rfl,trivial,rfl,fun _ _ => rfl⟩
  | cons e rest =>
    obtain ⟨k,live,_⟩ := segment_live (e := e) chain (by simp)
    have apart := (nodup_apart (show (([] ++ e :: rest).map Prod.fst).Nodup from nodup)).2.1
    simp only [first_cons,Heap.updateOpt,Heap.update_live live]
    refine ⟨_,rfl,segment_reback chain apart allowed,rfl,?_⟩
    intro p other
    exact Heap.modify_cell_other (other e (by simp)).symm _ _

/-- Removing an item whose backward link was left NULL takes everything before it along. -/
theorem banoListDel_linked (right : ∀ b, ok b b) {l : BanoList α}
    (linked : LinkedBy ok l (before ++ (p,a) :: rest)) (cell : l.items.cell p = some k)
    (link : k.prev = final none before ∧ kept = before ∨ k.prev = none ∧ kept = []) :
    ∃ l', banoListDel l p = some (0,l') ∧ LinkedBy ok l' (kept ++ rest) ∧
      l'.items.next = l.items.next := by
  obtain ⟨front,⟨back,cell',allowed⟩,chain⟩ := segment_append.mp linked.chain
  obtain rfl : k = ⟨a,first rest none,back⟩ := Option.some.inj (cell.symm.trans cell')
  obtain ⟨apartB,apartR,apart⟩ := nodup_apart linked.nodup
  obtain ⟨nodup,front',inside,backEq⟩ : ((kept ++ rest).map Prod.fst).Nodup ∧
      (∃ after, Segment ok l.items none kept after) ∧ (∀ e ∈ kept, e ∈ before) ∧
      back = final none kept := by
    rcases link with ⟨backEq,rfl⟩ | ⟨backEq,rfl⟩
    · exact ⟨(nodup_split linked.nodup).1,⟨_,front⟩,fun _ => id,backEq⟩
    · exact ⟨(nodup_split linked.nodup).2,⟨none,trivial⟩,by simp,backEq⟩
  obtain ⟨after,front'⟩ := front'
  have parts := nodup
  rw [List.map_append,List.nodup_append] at parts
  obtain ⟨items,stepPrev,keptOk,nextPrev,framePrev⟩ := relink_prev front' parts.1 (first rest none)
  have chain' : Segment ok items (some p) rest none :=
    segment_congr chain fun e member => framePrev _ fun d more => apart d (inside d more) e member
  obtain ⟨items',stepNext,restOk,nextNext,frameNext⟩ := relink_next chain' parts.2.1 back (right _)
  have live : items'.cell p = some ⟨a,first rest none,back⟩ := by
    rw [frameNext p apartR,framePrev p fun e member => apartB e (inside e member),cell]
  have kept' : Segment ok items' none kept (first rest none) :=
    segment_congr keptOk fun e member => frameNext _ fun d more => (apart e (inside e member) d more).symm
  refine ⟨⟨if back.isSome then l.head else first rest none,
    if (first rest none).isSome then l.tail else back,items'.erase p⟩,?_,⟨?_,?_,?_,nodup⟩,?_⟩
  · simp only [banoListDel,cell,Option.bind_eq_bind,Option.bind_some]
    rw [backEq,stepPrev,Option.bind_some,← backEq,stepNext,Option.bind_some,Heap.free_live live]
    rfl
  · rcases link with ⟨_,rfl⟩ | ⟨_,rfl⟩
    · cases kept with
      | nil => simp [backEq]
      | cons e kept => simp [backEq,linked.head]
    · simp [backEq]
  · cases rest with
    | nil => simp [backEq]
    | cons e rest => simp [linked.tail]
  · have listed := segment_append.mpr ⟨kept',backEq ▸ restOk⟩
    refine segment_congr listed fun e member => Heap.erase_cell_other ?_ _
    rcases List.mem_append.mp member with early | late
    · exact apartB e (inside e early)
    · exact apartR e late
  · simp [nextNext,nextPrev]

end Bano
