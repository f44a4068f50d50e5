import Bano.BanoList

/-! Lists that are built by bano_list_add_tail and bano_list_del alone: every link is right, so
a list is known by its entries, the items with what they carry. -/
namespace Bano

open Lib

/-- What a traversal meets. -/
def follow (h : Heap (Link α)) : Nat → Option Ptr → List (Ptr × α)
  | 0, _ => []
  | _ + 1, none => []
  | fuel + 1, some p =>
    match h.cell p with
    | none => []
    | some k => (p,k.data) :: follow h fuel k.next

def entriesOf (l : BanoList α) : List (Ptr × α) := follow l.items (l.items.next + 1) l.head

theorem entriesOf_linked {l : BanoList α} (linked : LinkedBy ok l xs) : entriesOf l = xs := by
  have walk : ∀ fuel before xs, Segment ok l.items before xs none → xs.length < fuel →
      follow l.items fuel (first xs none) = xs := by
    intro fuel
    induction fuel with
    | zero => intro _ _ _ enough; omega
    | succ fuel ih =>
      intro before xs chain enough
      cases xs with
      | nil => rfl
      | cons e xs =>
        obtain ⟨⟨back,cell,_⟩,rest⟩ := chain
        simp only [first_cons,follow,cell]
        rw [ih _ xs rest (by simp at enough; omega)]
  have enough := linked.length
  unfold entriesOf
  rw [linked.head]
  exact walk _ _ _ linked.chain (by omega)

/-- A list whose links are right and whose items are all linked. -/
structure LinkedList (α : Type) where
  list : BanoList α
  linked : Linked list (entriesOf list)
  only : ∀ p k, list.items.cell p = some k → (p,k.data) ∈ entriesOf list

theorem banoListAddTail_cell {l l' : BanoList α} (added : banoListAddTail true l a = some (err,l'))
    (cell : l'.items.cell p = some k) :
    p = l.items.next ∧ k.data = a ∨ ∃ k', l.items.cell p = some k' ∧ k.data = k'.data := by
  have fresh : ∀ k', (l.items.alloc ⟨a,none,l.tail⟩).cell p = some k' →
      p = l.items.next ∧ k'.data = a ∨ l.items.cell p = some k' := by
    intro k' live
    by_cases here : p = l.items.next
    · subst here
      rw [Heap.alloc_cell_next] at live
      exact .inl ⟨rfl,(Option.some.inj live) ▸ rfl⟩
    · rw [Heap.alloc_cell_other here] at live
      exact .inr live
  unfold banoListAddTail at added
  cases tail : l.tail with
  | none =>
    simp only [tail,if_true,Option.some.injEq,Prod.mk.injEq] at added
    obtain ⟨_,rfl⟩ := added
    rw [tail] at fresh
    rcases fresh k cell with new | old
    · exact .inl new
    · exact .inr ⟨k,old,rfl⟩
  | some t =>
    simp only [tail,if_true,Option.bind_eq_bind,Option.bind_eq_some_iff,Heap.update_eq_some] at added
    obtain ⟨_,⟨_,rfl⟩,same⟩ := added
    obtain ⟨_,rfl⟩ := Prod.mk.inj (Option.some.inj same)
    rw [tail] at fresh
    simp only [Heap.modify_cell] at cell
    split at cell
    · next here =>
      obtain ⟨k',live,rfl⟩ := Option.map_eq_some_iff.mp cell
      rcases fresh k' live with new | old
      · exact .inl new
      · exact .inr ⟨k',old,rfl⟩
    · rcases fresh k cell with new | old
      · exact .inl new
      · exact .inr ⟨k,old,rfl⟩

theorem updateOpt_cell {h h' : Heap (Link α)} {f : Link α → Link α}
    (result : h.updateOpt q f = some h') (cell : h'.cell p = some k) (keeps : ∀ k, (f k).data = k.data) :
    ∃ k', h.cell p = some k' ∧ k.data = k'.data := by
  cases q with
  | none =>
    obtain rfl := Option.some.inj result
    exact ⟨k,cell,rfl⟩
  | some q =>
    obtain ⟨_,rfl⟩ := Heap.update_eq_some.mp result
    rw [Heap.modify_cell] at cell
    split at cell
    · obtain ⟨k',live,rfl⟩ := Option.map_eq_some_iff.mp cell
      exact ⟨k',live,keeps k'⟩
    · exact ⟨k,cell,rfl⟩

theorem banoListDel_cell {l l' : BanoList α} (removed : banoListDel l i = some (err,l'))
    (cell : l'.items.cell p = some k) : p ≠ i ∧ ∃ k', l.items.cell p = some k' ∧ k.data = k'.data := by
  simp only [banoListDel,Option.bind_eq_bind,Option.bind_eq_some_iff,Heap.free_eq_some] at removed
  obtain ⟨ki,_,h,prev,h',next,_,⟨_,rfl⟩,same⟩ := removed
  obtain ⟨_,rfl⟩ := Prod.mk.inj (Option.some.inj same)
  have other : p ≠ i := by
    rintro rfl
    simp at cell
  rw [Heap.erase_cell_other other] at cell
  obtain ⟨k',live,data⟩ := updateOpt_cell next cell fun _ => rfl
  obtain ⟨k'',live',data'⟩ := updateOpt_cell prev live fun _ => rfl
  exact ⟨other,k'',live',data.trans data'⟩

namespace LinkedList

def entries (l : LinkedList α) : List (Ptr × α) := entriesOf l.list

/-- The item the next allocation yields. -/
def nextItem (l : LinkedList α) : Ptr := l.list.items.next

def empty : LinkedList α := ⟨banoListInit,banoListInit_linked _,by simp [banoListInit]⟩

theorem addTail_linked (l : LinkedList α) (added : banoListAddTail true l.list a = some (err,l')) :
    err = 0 ∧ Linked l' (l.entries ++ [(l.nextItem,a)]) ∧ l'.items.next = l.nextItem + 1 := by
  obtain ⟨l'',added',linked,next⟩ := banoListAddTail_linked exact_right l.linked a
  obtain ⟨rfl,rfl⟩ := Prod.mk.inj (Option.some.inj (added.symm.trans added'))
  exact ⟨rfl,linked,next⟩

def addTail (malloc : Bool) (l : LinkedList α) (a : α) : Int × LinkedList α :=
  if malloc then
    match added : banoListAddTail true l.list a with
    | none => (-1,l)
    | some (err,list) =>
      (err,⟨list,by
        have linked := (l.addTail_linked added).2.1
        rwa [entriesOf_linked linked],by
        intro p k cell
        rw [entriesOf_linked (l.addTail_linked added).2.1]
        rcases banoListAddTail_cell added cell with ⟨rfl,rfl⟩ | ⟨k',live,data⟩
        · simp [nextItem]
        · rw [data]
          exact List.mem_append_left _ (l.only p k' live)⟩)
  else (-1,l)

/-- What the item carries, or none when it is not one of the list. -/
def data (l : LinkedList α) (it : Ptr) : Option α := (l.list.items.cell it).map Link.data

def next (l : LinkedList α) (it : Ptr) : Option (Option Ptr) := (l.list.items.cell it).map Link.next

theorem data_eq_some {l : LinkedList α} : l.data it = some a ↔ (it,a) ∈ l.entries := by
  constructor
  · intro found
    obtain ⟨k,cell,rfl⟩ := Option.map_eq_some_iff.mp found
    exact l.only it k cell
  · intro member
    obtain ⟨k,cell,data⟩ := l.linked.live member
    exact Option.map_eq_some_iff.mpr ⟨k,cell,data⟩

theorem nodup (l : LinkedList α) : (l.entries.map Prod.fst).Nodup := l.linked.nodup

theorem del_linked (l : LinkedList α) (removed : banoListDel l.list it = some (err,l')) :
    Linked l' (l.entries.filter fun e => e.1 ≠ it) ∧ l'.items.next = l.nextItem := by
  have live : ∃ k, l.list.items.cell it = some k := by
    cases cell : l.list.items.cell it with
    | none => simp [banoListDel,cell] at removed
    | some k => exact ⟨k,rfl⟩
  obtain ⟨k,cell⟩ := live
  obtain ⟨before,a,rest,split⟩ := mem_split (List.mem_map_of_mem (l.only it k cell))
  have linked : Linked l.list (before ++ (it,a) :: rest) := split ▸ l.linked
  obtain ⟨_,⟨back,cell',backEq⟩,_⟩ := segment_append.mp linked.chain
  obtain ⟨l'',removed',linked',next⟩ := banoListDel_linked exact_right linked cell' (.inl ⟨backEq,rfl⟩)
  obtain ⟨_,rfl⟩ := Prod.mk.inj (Option.some.inj (removed.symm.trans removed'))
  refine ⟨?_,next⟩
  rw [show l.entries = before ++ (it,a) :: rest from split,filter_split linked.nodup]
  exact linked'

def del (l : LinkedList α) (it : Ptr) : Option (LinkedList α) :=
  match removed : banoListDel l.list it with
  | none => none
  | some (_,list) =>
    some ⟨list,by
      have linked := (l.del_linked removed).1
      rwa [entriesOf_linked linked],by
      intro p k cell
      rw [entriesOf_linked (l.del_linked removed).1]
      obtain ⟨other,k',live,data⟩ := banoListDel_cell removed cell
      rw [data,List.mem_filter]
      exact ⟨l.only p k' live,by simpa using other⟩⟩

def foreach (l : LinkedList α) (fn : Ptr → α → σ → Option (Int × σ)) (p : σ) : Option (Int × σ) :=
  banoListForeach l.list fn p

theorem foreach_visit (l : LinkedList α) (fn : Ptr → α → σ → Option (Int × σ)) (p : σ) :
    l.foreach fn p = visit fn l.entries p := banoListForeach_visit l.linked fn p

@[simp] theorem empty_entries : (empty : LinkedList α).entries = [] := rfl

@[simp] theorem addTail_false (l : LinkedList α) (a : α) : l.addTail false a = (-1,l) := rfl

theorem addTail_true (l : LinkedList α) (a : α) : ∃ l', l.addTail true a = (0,l') ∧
    l'.entries = l.entries ++ [(l.nextItem,a)] ∧ l'.nextItem = l.nextItem + 1 ∧ l'.list.tail = some l.nextItem := by
  obtain ⟨list,added,linked,next⟩ := banoListAddTail_linked exact_right l.linked a
  simp only [addTail,if_true]
  split
  · next missing => simp [missing] at added
  · next err list' added' =>
    obtain ⟨rfl,rfl⟩ := Prod.mk.inj (Option.some.inj (added.symm.trans added'))
    refine ⟨_,rfl,entriesOf_linked linked,next,?_⟩
    simp [linked.tail,nextItem]

/-- An allocation failure leaves the list as it is. -/
theorem addTail_cases (malloc : Bool) (l : LinkedList α) (a : α) : l.addTail malloc a = (-1,l) ∨
    ∃ l', l.addTail malloc a = (0,l') ∧ l'.entries = l.entries ++ [(l.nextItem,a)] ∧
      l'.nextItem = l.nextItem + 1 ∧ l'.list.tail = some l.nextItem := by
  cases malloc with
  | false => exact .inl rfl
  | true => exact .inr (l.addTail_true a)

theorem del_mem {l : LinkedList α} (member : (it,a) ∈ l.entries) : ∃ l', l.del it = some l' := by
  obtain ⟨before,rest,split⟩ := List.append_of_mem member
  have linked : Linked l.list (before ++ (it,a) :: rest) := split ▸ l.linked
  obtain ⟨_,⟨back,cell,backEq⟩,_⟩ := segment_append.mp linked.chain
  obtain ⟨l',removed,_⟩ := banoListDel_linked exact_right linked cell (.inl ⟨backEq,rfl⟩)
  unfold del
  split
  · next missing => simp [missing] at removed
  · exact ⟨_,rfl⟩

theorem del_eq_some {l l' : LinkedList α} (removed : l.del it = some l') :
    l'.entries = l.entries.filter (fun e => e.1 ≠ it) ∧ l'.nextItem = l.nextItem := by
  unfold del at removed
  split at removed
  · simp at removed
  · next err list removed' =>
    obtain rfl := Option.some.inj removed
    have linked := l.del_linked removed'
    exact ⟨entriesOf_linked linked.1,linked.2⟩

/-- Deleting the one item that carries `a`. -/
theorem mem_del {l l' : LinkedList α} (removed : l.del it = some l') (listed : (it,a) ∈ l.entries)
    (only : ∀ p, (p,a) ∈ l.entries → p = it) : (p,c) ∈ l'.entries ↔ c ≠ a ∧ (p,c) ∈ l.entries := by
  rw [(del_eq_some removed).1,List.mem_filter]
  constructor
  · rintro ⟨member,apart⟩
    refine ⟨?_,member⟩
    rintro rfl
    simp [only p member] at apart
  · rintro ⟨other,member⟩
    refine ⟨member,?_⟩
    suffices p ≠ it by simpa using this
    rintro rfl
    exact other (congrArg Prod.snd (List.inj_on_of_nodup_map l.nodup member listed rfl))

/-- The operations are those of bano_list.c on the list itself. -/
theorem addTail_eq (malloc : Bool) (l : LinkedList α) (a : α) :
    banoListAddTail malloc l.list a = some ((l.addTail malloc a).1,(l.addTail malloc a).2.list) := by
  cases malloc with
  | false => rfl
  | true =>
    obtain ⟨list,added,_⟩ := banoListAddTail_linked exact_right l.linked a
    simp only [addTail,if_true]
    split
    · next missing => simp [missing] at added
    · next err list' added' => exact added'

theorem del_eq (l : LinkedList α) (it : Ptr) :
    (banoListDel l.list it).map Prod.snd = (l.del it).map LinkedList.list := by
  unfold del
  split
  · next missing => simp [missing]
  · next err list removed => simp [removed]

theorem head_eq (l : LinkedList α) : l.list.head = first l.entries none := l.linked.head

theorem next_eq {l : LinkedList α} (split : l.entries = before ++ (it,a) :: rest) :
    l.next it = some (first rest none) := by
  have linked : Linked l.list (before ++ (it,a) :: rest) := split ▸ l.linked
  obtain ⟨_,⟨back,cell,_⟩,_⟩ := segment_append.mp linked.chain
  simp [next,cell]

end LinkedList

theorem mem_of_del {l l' : LinkedList Ptr} (removed : l.del it = some l') (member : e ∈ l'.entries) :
    e ∈ l.entries := by
  rw [(LinkedList.del_eq_some removed).1] at member
  exact (List.mem_filter.mp member).1

end Bano
