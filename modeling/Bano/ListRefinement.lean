import Mathlib.Data.List.Induction
import Bano.Lib.Run
import Bano.BanoList

/-! Runs of list operations against the same runs on a plain sequence of items. The one
operation that parts them is `add_before` anywhere but at the head. -/
namespace Bano

open Lib

inductive ListOp (α : Type) where
  | addTail (malloc : Bool) (p : α)
  | addHead (malloc : Bool) (p : α)
  | addBefore (malloc : Bool) (it : Ptr) (p : α)
  | del (it : Ptr)

def ListOp.apply : ListOp α → BanoList α → Option (BanoList α)
  | .addTail malloc p, l => (banoListAddTail malloc l p).map Prod.snd
  | .addHead malloc p, l => (banoListAddHead malloc l p).map Prod.snd
  | .addBefore malloc it p, l => (banoListAddBefore malloc l it p).map Prod.snd
  | .del it, l => (banoListDel l it).map Prod.snd

/-- A plain sequence of items and the next address the allocator hands out. -/
structure Plain (α : Type) where
  next : Ptr
  items : List (Ptr × α)

def insertBefore (it : Ptr) (e : Ptr × α) : List (Ptr × α) → List (Ptr × α)
  | [] => []
  | d :: xs => if d.1 = it then e :: d :: xs else d :: insertBefore it e xs

def ListOp.plain : ListOp α → Plain α → Plain α
  | .addTail true p, s => ⟨s.next + 1,s.items ++ [(s.next,p)]⟩
  | .addHead true p, s => ⟨s.next + 1,(s.next,p) :: s.items⟩
  | .addBefore true it p, s => ⟨s.next + 1,insertBefore it (s.next,p) s.items⟩
  | .del it, s => ⟨s.next,s.items.filter fun e => e.1 ≠ it⟩
  | _, s => s

def listRun (ops : List (ListOp α)) : Option (BanoList α) := run ListOp.apply ops banoListInit

def plainRun (ops : List (ListOp α)) : Plain α := ops.foldl (fun s op => op.plain s) ⟨0,[]⟩

/-- What a client can see of a list: both traversals, and the NULLs at its ends. -/
structure Represents (l : BanoList α) (xs : List (Ptr × α)) : Prop where
  forward : Follows Link.next l.items l.head xs
  backward : Follows Link.prev l.items l.tail xs.reverse
  front : ∀ h k, l.head = some h → l.items.cell h = some k → k.prev = none
  back : ∀ t k, l.tail = some t → l.items.cell t = some k → k.next = none

def ListOp.AllocFails : ListOp α → Prop
  | .addTail malloc _ | .addHead malloc _ | .addBefore malloc _ _ => malloc = false
  | .del _ => False

/-- The item an operation is given is one of the list. -/
def ListOp.InList : ListOp α → Plain α → Prop
  | .addBefore _ it _, s | .del it, s => it ∈ s.items.map Prod.fst
  | _, _ => True

/-- `add_before` takes effect at an item that is not the head. -/
def ListOp.InsertsInside : ListOp α → Plain α → Prop
  | .addBefore true it _, s => first s.items none ≠ some it
  | _, _ => False

def ValidFrom : List (ListOp α) → Plain α → Prop
  | [], _ => True
  | op :: ops, s => op.InList s ∧ ValidFrom ops (op.plain s)

/-- Each operation of the run is given an item of the list it meets. -/
def Valid (ops : List (ListOp α)) : Prop := ValidFrom ops ⟨0,[]⟩

instance : (op : ListOp α) → (s : Plain α) → Decidable (op.InList s)
  | .addTail _ _, _ | .addHead _ _, _ => .isTrue trivial
  | .addBefore _ it _, s | .del it, s => inferInstanceAs (Decidable (it ∈ s.items.map Prod.fst))

instance decidableValidFrom : (ops : List (ListOp α)) → (s : Plain α) → Decidable (ValidFrom ops s)
  | [], _ => .isTrue trivial
  | op :: ops, s =>
    have := decidableValidFrom ops (op.plain s)
    inferInstanceAs (Decidable (op.InList s ∧ ValidFrom ops (op.plain s)))

instance (ops : List (ListOp α)) : Decidable (Valid ops) := decidableValidFrom ops _

/-- Every prefix of the run ends in a list that represents the plain sequence, and an
insertion whose allocation fails leaves the list as it was. -/
def Refines (ops : List (ListOp α)) : Prop :=
  ∀ pre, pre <+: ops → (∃ l, listRun pre = some l ∧ Represents l (plainRun pre).items) ∧
    ∀ op, pre ++ [op] <+: ops → op.AllocFails → listRun (pre ++ [op]) = listRun pre

theorem listRun_concat (ops : List (ListOp α)) (op : ListOp α) :
    listRun (ops ++ [op]) = (listRun ops).bind op.apply := run_concat _ _ _ _

theorem plainRun_concat (ops : List (ListOp α)) (op : ListOp α) :
    plainRun (ops ++ [op]) = op.plain (plainRun ops) := by simp [plainRun]

theorem validFrom_append {pre : List (ListOp α)} (valid : ValidFrom (pre ++ rest) s) :
    ValidFrom rest (pre.foldl (fun s op => op.plain s) s) := by
  induction pre generalizing s with
  | nil => exact valid
  | cons op pre ih => exact ih valid.2

theorem Valid.inList {ops : List (ListOp α)} (valid : Valid ops) (listed : pre ++ [op] <+: ops) :
    op.InList (plainRun pre) := by
  obtain ⟨rest,rfl⟩ := listed
  rw [List.append_assoc] at valid
  exact (validFrom_append valid).1

theorem Linked.represents {l : BanoList α} (linked : Linked l xs) : Represents l xs where
  forward := linked.head ▸ segment_follows_next linked.chain
  backward := by
    have back := segment_follows_prev linked.chain (show Follows Link.prev l.items none [] from rfl)
    rw [linked.tail]
    simpa using back
  front := by
    intro h k head cell
    cases xs with
    | nil => simp [linked.head] at head
    | cons e xs =>
      obtain ⟨⟨b,stored,rfl⟩,_⟩ := linked.chain
      obtain rfl : e.1 = h := by simpa [linked.head] using head
      rw [stored] at cell
      exact (Option.some.inj cell) ▸ rfl
  back := by
    intro t k tail cell
    rcases concat_cases xs with rfl | ⟨ys,p,a,rfl⟩
    · simp [linked.tail] at tail
    · obtain ⟨_,⟨b,stored,_⟩,_⟩ := segment_append.mp linked.chain
      obtain rfl : p = t := by simpa [linked.tail] using tail
      rw [stored] at cell
      exact (Option.some.inj cell) ▸ rfl

theorem insertBefore_split (xs : List (Ptr × α)) (apart : ∀ e ∈ ys, e.1 ≠ p) :
    insertBefore p d (ys ++ (p,a) :: xs) = ys ++ d :: (p,a) :: xs := by
  induction ys with
  | nil => simp [insertBefore]
  | cons e ys ih =>
    simp only [List.cons_append,insertBefore,apart e List.mem_cons_self,if_false]
    rw [ih fun c member => apart c (List.mem_cons_of_mem _ member)]

/-- The concrete and the plain state agree after `pre`. -/
def Agree (pre : List (ListOp α)) : Prop :=
  ∃ l, listRun pre = some l ∧ Linked l (plainRun pre).items ∧ l.items.next = (plainRun pre).next

theorem agree_nil : Agree ([] : List (ListOp α)) := ⟨_,rfl,banoListInit_linked _,rfl⟩

/-- An operation that has a result, and whose new list is the plain one, keeps them in agreement. -/
theorem Agree.extend {pre : List (ListOp α)} {l l' : BanoList α} (ran : listRun pre = some l)
    (result : op.apply l = some l') (linked : Linked l' (op.plain (plainRun pre)).items)
    (next : l'.items.next = (op.plain (plainRun pre)).next) : Agree (pre ++ [op]) := by
  refine ⟨l',?_,?_,?_⟩
  · rw [listRun_concat,ran,Option.bind_some,result]
  · rw [plainRun_concat]; exact linked
  · rw [plainRun_concat]; exact next

theorem agree_step {pre : List (ListOp α)} (agree : Agree pre) (inside : op.InList (plainRun pre))
    (outer : ¬op.InsertsInside (plainRun pre)) : Agree (pre ++ [op]) := by
  obtain ⟨l,ran,linked,next⟩ := agree
  cases op with
  | addTail malloc p =>
    cases malloc with
    | false => exact .extend ran rfl linked next
    | true =>
      obtain ⟨l',added,linked',next'⟩ := banoListAddTail_linked exact_right linked p
      rw [next] at linked' next'
      exact .extend ran (by simp [ListOp.apply,added]) linked' next'
  | addHead malloc p =>
    cases malloc with
    | false => exact .extend ran rfl linked next
    | true =>
      obtain ⟨l',added,linked',next',_⟩ := banoListAddHead_linked exact_right linked p
      rw [next] at linked' next'
      exact .extend ran (by simp [ListOp.apply,added]) linked' next'
  | addBefore malloc it p =>
    cases malloc with
    | false => exact .extend ran rfl linked next
    | true =>
      obtain ⟨before,a,rest,split⟩ := mem_split inside
      cases before with
      | cons e before =>
        refine absurd ?_ outer
        have apart := (nodup_apart (split ▸ linked.nodup)).1 e (by simp)
        simpa [ListOp.InsertsInside,split] using apart
      | nil =>
        have head : (plainRun pre).items = (it,a) :: rest := split
        rw [head] at linked
        obtain ⟨l',added,linked',next',_⟩ := banoListAddBefore_head exact_right linked p
        rw [next] at linked' next'
        refine .extend ran (by simp [ListOp.apply,added]) ?_ next'
        simpa [ListOp.plain,head,insertBefore] using linked'
  | del it =>
    obtain ⟨before,a,rest,split⟩ := mem_split inside
    rw [split] at linked
    obtain ⟨_,⟨back,cell,backEq⟩,_⟩ := segment_append.mp linked.chain
    obtain ⟨l',removed,linked',next'⟩ := banoListDel_linked exact_right linked cell (.inl ⟨backEq,rfl⟩)
    refine .extend ran (by simp [ListOp.apply,removed]) ?_ (next'.trans next)
    simpa only [ListOp.plain,split,filter_split linked.nodup] using linked'

theorem follows_link {step : Link α → Option Nat} {h : Heap (Link α)}
    (follows : Follows step h start (front ++ (p,a) :: (q,b) :: rest)) (cell : h.cell p = some k) :
    step k = some q := by
  induction front generalizing start with
  | nil =>
    obtain ⟨_,k',cell',_,next,_⟩ := follows
    rw [cell] at cell'
    exact (Option.some.inj cell') ▸ next
  | cons e front ih =>
    obtain ⟨_,_,_,_,later⟩ := follows
    exact ih later

/-- After `add_before` inside the list, the backward traversal stops at the new item. -/
theorem insertsInside_not_represents {pre : List (ListOp α)} (agree : Agree pre)
    (inside : op.InList (plainRun pre)) (inner : op.InsertsInside (plainRun pre)) :
    ¬∃ l, listRun (pre ++ [op]) = some l ∧ Represents l (plainRun (pre ++ [op])).items := by
  rintro ⟨l',ran',represents⟩
  obtain ⟨l,ran,linked,next⟩ := agree
  match op, inside, inner with
  | .addBefore true it p, inside, inner =>
    obtain ⟨before,b,rest,split⟩ := mem_split inside
    rcases concat_cases before with rfl | ⟨ys,q,c,rfl⟩
    · simp [ListOp.InsertsInside,split] at inner
    have split' : (plainRun pre).items = ys ++ (q,c) :: (it,b) :: rest := by simpa using split
    rw [split'] at linked
    obtain ⟨_,⟨back,cell,backEq⟩,_⟩ := segment_append.mp
      (show Segment Exact l.items none ((ys ++ [(q,c)]) ++ (it,b) :: rest) none by
        simpa using linked.chain)
    have toPrev : back = some q := by simpa [Exact] using backEq
    obtain ⟨l'',added,_,fresh,_⟩ :=
      banoListAddBefore_middle (fun _ => .inr rfl) half_right linked.half p cell toPrev
    obtain rfl : l'' = l' := by
      rw [listRun_concat,ran,Option.bind_some] at ran'
      simpa [ListOp.apply,added] using ran'
    have backward := represents.backward
    have apart := (nodup_apart (split ▸ (split' ▸ linked.nodup))).1
    rw [plainRun_concat] at backward
    simp only [ListOp.plain,split,insertBefore_split rest apart,← next] at backward
    have link := follows_link (show Follows Link.prev l''.items l''.tail
      ((rest.reverse ++ [(it,b)]) ++ (l.items.next,p) :: (q,c) :: ys.reverse) by
        simpa using backward) fresh
    simp at link

theorem agree_prefix {ops : List (ListOp α)} (valid : Valid ops)
    (step : ∀ pre op, pre ++ [op] <+: ops → Agree pre → ¬op.InsertsInside (plainRun pre)) :
    ∀ pre, pre <+: ops → Agree pre := by
  intro pre
  induction pre using List.reverseRecOn with
  | nil => exact fun _ => agree_nil
  | append_singleton pre op ih =>
    intro listed
    have agree := ih ((List.prefix_append pre [op]).trans listed)
    exact agree_step agree (valid.inList listed) (step pre op listed agree)

theorem failed_insertion {pre : List (ListOp α)} {op : ListOp α} (ran : listRun pre = some l)
    (fails : op.AllocFails) : listRun (pre ++ [op]) = listRun pre := by
  rw [listRun_concat,ran,Option.bind_some]
  cases op <;> simp_all [ListOp.AllocFails,ListOp.apply,banoListAddTail,banoListAddHead,banoListAddBefore]

/-- The lists follow the plain sequences exactly in the runs that never insert inside. -/
theorem refines_iff (ops : List (ListOp α)) (valid : Valid ops) :
    Refines ops ↔ ∀ pre op, pre ++ [op] <+: ops → ¬op.InsertsInside (plainRun pre) := by
  constructor
  · intro refines
    have agree := agree_prefix valid fun pre op listed agree inner =>
      insertsInside_not_represents agree (valid.inList listed) inner (refines _ listed).1
    intro pre op listed inner
    have before := agree pre ((List.prefix_append pre [op]).trans listed)
    exact insertsInside_not_represents before (valid.inList listed) inner (refines _ listed).1
  · intro outer pre listed
    obtain ⟨l,ran,linked,_⟩ := agree_prefix valid (fun pre op listed _ => outer pre op listed) pre listed
    exact ⟨⟨l,ran,linked.represents⟩,fun op _ fails => failed_insertion ran fails⟩

def headInsertions : List (ListOp Char) :=
  [.addTail true 'a',.addBefore true 0 'b',.addHead false 'c',.del 0]

theorem refines_iff_headInsertions : Refines headInsertions ↔
    ∀ pre op, pre ++ [op] <+: headInsertions → ¬op.InsertsInside (plainRun pre) :=
  refines_iff headInsertions (by decide)

/-- The third item is inserted before the second: traversed backwards, the list has lost its head. -/
theorem insertion_inside_breaks : ¬∀ ops : List (ListOp Char), Valid ops → Refines ops := by
  intro always
  have refines := always [.addTail true 'a',.addTail true 'b',.addBefore true 1 'c'] (by decide)
  obtain ⟨l,ran,represents⟩ := (refines _ List.prefix_rfl).1
  have stop : l.items.cell 2 = some ⟨'c',some 1,none⟩ := by
    obtain rfl : _ = l := Option.some.inj ran
    rfl
  have link := follows_link (show Follows Link.prev l.items l.tail
    ([(1,'b')] ++ (2,'c') :: (0,'a') :: []) from represents.backward) stop
  simp at link

end Bano
