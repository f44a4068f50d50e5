import Bano.Timer

/-! Runs of bano_timer_add and bano_timer_del. Delays are relative to the predecessor and the
compensation of the successor is disabled, so a deletion usually shifts what comes later. -/
namespace Bano

open Lib

inductive TimerOp where
  | add (mallocTimer mallocItem : Bool) (ms : U32)
  | del (t : Ptr)

def TimerOp.apply : TimerOp → TimerQueue → Option TimerQueue
  | .add mallocTimer mallocItem ms, q => (banoTimerAdd mallocTimer mallocItem q ms).map Prod.snd
  | .del t, q => banoTimerDel q t

/-- What a traversal of the queue meets: the items and their timers. -/
def Holds (q : TimerQueue) (xs : List (Ptr × Ptr)) : Prop := Follows Link.next q.list.items q.list.head xs

/-- A timer that is deleted is one of the queue. -/
def TimerOp.InQueue : TimerOp → TimerQueue → Prop
  | .add .., _ => True
  | .del t, q => ∃ xs, Holds q xs ∧ t ∈ xs.map Prod.snd

abbrev TimerReach : List TimerOp → TimerQueue → Prop := Reach TimerOp.apply TimerOp.InQueue banoTimerInit

/-- `t` is gone, and every other timer is met in the same order with the same delay. -/
def RemovesOnly (q : TimerQueue) (xs : List (Ptr × Ptr)) (t : Ptr) : Prop :=
  ∃ q', banoTimerDel q t = some q' ∧ q'.timers.cell t = none ∧
    ∃ xs', Holds q' xs' ∧ delaysFrom q' 0 xs' = (delaysFrom q 0 xs).filter fun d => d.1 ≠ t

/-- Nothing precedes the item of `t`, or its backward link was set. -/
def LinkedBack (q : TimerQueue) (before : List (Ptr × Ptr)) (it : Ptr) : Prop :=
  before = [] ∨ ∃ k, q.list.items.cell it = some k ∧ k.prev ≠ none

theorem Queued.holds {q : TimerQueue} (queued : Queued ok q xs) : Holds q xs := by
  unfold Holds
  rw [queued.linked.head]
  exact segment_follows_next queued.linked.chain

theorem Holds.unique {q : TimerQueue} (one : Holds q xs) (other : Holds q ys) : xs = ys :=
  follows_unique one other

theorem total_le_of_sublist {q : TimerQueue} (smaller : List.Sublist xs ys) : total q xs ≤ total q ys := by
  induction smaller with
  | slnil => exact Nat.le_refl _
  | cons e _ ih => rw [total_cons]; omega
  | cons_cons e _ ih => rw [total_cons,total_cons]; omega

/-- A deletion keeps the rest of the chain, and what precedes it unless the backward link is NULL. -/
theorem banoTimerDel_queued (right : ∀ b, ok b b) {q : TimerQueue} (queued : Queued ok q (before ++ (it,t) :: rest))
    (cell : q.list.items.cell it = some k)
    (link : k.prev = final none before ∧ kept = before ∨ k.prev = none ∧ kept = []) :
    ∃ q', banoTimerDel q t = some q' ∧ Queued ok q' (kept ++ rest) ∧ q'.timers = q.timers.erase t ∧
      (∀ e ∈ kept ++ rest, relOf q' e.2 = relOf q e.2) := by
  obtain ⟨list,removed,linked,_⟩ := banoListDel_linked right queued.linked cell link
  obtain ⟨ti,live,item⟩ := queued.timer (it,t) (by simp)
  have apart := nodup_apart queued.linked.nodup
  have inside : List.Sublist (kept ++ rest) (before ++ rest) := by
    rcases link with ⟨_,rfl⟩ | ⟨_,rfl⟩
    · exact List.Sublist.refl _
    · exact List.sublist_append_right _ _
  have inside' : List.Sublist (kept ++ rest) (before ++ (it,t) :: rest) :=
    inside.trans (List.Sublist.append_left (List.sublist_cons_self _ _) _)
  have other : ∀ e ∈ kept ++ rest, e.2 ≠ t := by
    intro e member
    apply queued.timer_ne (d := (it,t)) (inside'.subset member) (by simp)
    rcases List.mem_append.mp (inside.subset member) with early | late
    · exact apart.1 e early
    · exact apart.2.1 e late
  have same : ∀ e ∈ kept ++ rest, (q.timers.erase t).cell e.2 = q.timers.cell e.2 :=
    fun e member => Heap.erase_cell_other (other e member) _
  refine ⟨⟨list,q.timers.erase t⟩,?_,⟨linked,?_,?_⟩,rfl,?_⟩
  · have designated : ti.it = it := item
    simp [banoTimerDel,live,designated,removed,Heap.free_live live]
  · intro e member
    obtain ⟨ei,cell,own⟩ := queued.timer e (inside'.subset member)
    exact ⟨ei,(same e member).trans cell,own⟩
  · have unchanged : total ⟨list,q.timers.erase t⟩ (kept ++ rest) = total q (kept ++ rest) :=
      total_congr same
    rw [unchanged]
    exact Nat.lt_of_le_of_lt (total_le_of_sublist inside') queued.bounded
  · intro e member
    simp only [relOf,same e member]

/-- Any timer of the queue can be deleted. -/
theorem banoTimerDel_some {q : TimerQueue} (queued : Queued Half q xs) (member : (it,t) ∈ xs) :
    ∃ q' ys, banoTimerDel q t = some q' ∧ Queued Half q' ys := by
  obtain ⟨before,rest,rfl⟩ := List.append_of_mem member
  obtain ⟨_,⟨back,cell,link⟩,_⟩ := segment_append.mp queued.linked.chain
  rcases link with right | unset
  · obtain ⟨q',deleted,queued',_⟩ := banoTimerDel_queued half_right queued cell (.inl ⟨right,rfl⟩)
    exact ⟨q',_,deleted,queued'⟩
  · obtain ⟨q',deleted,queued',_⟩ := banoTimerDel_queued half_right queued cell (.inr ⟨unset,rfl⟩)
    exact ⟨q',_,deleted,queued'⟩

theorem reach_queued (reach : TimerReach ops q) : ∃ xs, Queued Half q xs := by
  apply reach.invariant (fun q => ∃ xs, Queued Half q xs) ⟨[],banoTimerInit_queued _⟩
  rintro (⟨mallocTimer,mallocItem,ms⟩ | t) q q' ⟨xs,queued⟩ inside taken
  · obtain ⟨⟨tip,_⟩,result,rfl⟩ := Option.map_eq_some_iff.mp taken
    rcases banoTimerAdd_cases queued result with ⟨_,rfl⟩ | ⟨front,rest,_,_,_,queued'⟩
    · exact ⟨xs,queued⟩
    · exact ⟨_,queued'⟩
  · obtain ⟨ys,holds,member⟩ := inside
    obtain rfl := holds.unique queued.holds
    obtain ⟨⟨it,_⟩,listed,rfl⟩ := List.mem_map.mp member
    obtain ⟨q'',_,removed,queued'⟩ := banoTimerDel_some queued listed
    obtain rfl := Option.some.inj (taken.symm.trans removed)
    exact ⟨_,queued'⟩

theorem delaysFrom_timers (q : TimerQueue) (ms : Nat) (xs : List (Ptr × Ptr)) :
    (delaysFrom q ms xs).map Prod.fst = xs.map Prod.snd := by
  induction xs generalizing ms with
  | nil => rfl
  | cons e xs ih => simp [delaysFrom,ih]

theorem delaysFrom_filter {q : TimerQueue} (other : ∀ e ∈ xs, e.2 ≠ t) :
    (delaysFrom q ms xs).filter (fun d => d.1 ≠ t) = delaysFrom q ms xs := by
  apply List.filter_eq_self.mpr
  intro d member
  have listed : d.1 ∈ xs.map Prod.snd := by
    rw [← delaysFrom_timers q ms]
    exact List.mem_map_of_mem member
  obtain ⟨e,inside,same⟩ := List.mem_map.mp listed
  simpa [← same] using other e inside

/-- The delays that a deletion between `before` and `rest` should leave. -/
theorem Queued.delays_without {q : TimerQueue} (queued : Queued ok q (before ++ (it,t) :: rest)) :
    (delaysFrom q 0 (before ++ (it,t) :: rest)).filter (fun d => d.1 ≠ t) =
      delaysFrom q 0 before ++ delaysFrom q (total q before + relOf q t) rest := by
  have apart := nodup_apart queued.linked.nodup
  have otherB : ∀ e ∈ before, e.2 ≠ t := fun e member =>
    queued.timer_ne (List.mem_append_left _ member) (List.mem_append_right _ List.mem_cons_self)
      (apart.1 e member)
  have otherR : ∀ e ∈ rest, e.2 ≠ t := fun e member =>
    queued.timer_ne (List.mem_append_right _ (List.mem_cons_of_mem _ member))
      (List.mem_append_right _ List.mem_cons_self) (apart.2.1 e member)
  rw [delaysFrom_append,List.filter_append,delaysFrom_filter otherB]
  simp only [delaysFrom,Nat.zero_add]
  rw [List.filter_cons_of_neg (by simp),delaysFrom_filter otherR]

theorem delaysFrom_shift (q : TimerQueue) (xs : List (Ptr × Ptr)) :
    delaysFrom q ms xs = delaysFrom q ms' xs ↔ xs = [] ∨ ms = ms' := by
  cases xs with
  | nil => simp [delaysFrom]
  | cons e xs =>
    refine ⟨fun same => .inr ?_,?_⟩
    · have := (List.cons.inj same).1
      simp only [Prod.mk.injEq] at this
      omega
    · rintro (empty | rfl)
      · simp at empty
      · rfl

/-- A deletion removes just its timer when nothing is lost before it and nothing shifts after it. -/
theorem removesOnly_iff (reach : TimerReach ops q) (holds : Holds q (before ++ (it,t) :: rest)) :
    RemovesOnly q (before ++ (it,t) :: rest) t ↔
      LinkedBack q before it ∧ (rest = [] ∨ relOf q t = 0) := by
  obtain ⟨xs,queued⟩ := reach_queued reach
  obtain rfl := queued.holds.unique holds
  obtain ⟨_,⟨back,cell,backEq⟩,_⟩ := segment_append.mp queued.linked.chain
  have whole := queued.delays_without
  by_cases linked : LinkedBack q before it
  · have right : back = final none before := by
      rcases linked with rfl | ⟨k,cell',set⟩
      · exact backEq.elim id id
      · rw [cell] at cell'
        obtain rfl := Option.some.inj cell'
        exact backEq.resolve_right set
    obtain ⟨q',removed,queued',gone,same⟩ := banoTimerDel_queued half_right queued cell (.inl ⟨right,rfl⟩)
    have shifted : delaysFrom q' 0 (before ++ rest) =
        delaysFrom q 0 before ++ delaysFrom q (total q before) rest := by
      rw [delaysFrom_congr same,delaysFrom_append,Nat.zero_add]
    have agree : delaysFrom q' 0 (before ++ rest) =
        (delaysFrom q 0 (before ++ (it,t) :: rest)).filter (fun d => d.1 ≠ t) ↔
        rest = [] ∨ relOf q t = 0 := by
      rw [whole,shifted,List.append_cancel_left_eq,delaysFrom_shift]
      simp
    constructor
    · rintro ⟨_,removed',_,ys,holds',delays⟩
      obtain rfl := Option.some.inj (removed'.symm.trans removed)
      obtain rfl := holds'.unique queued'.holds
      exact ⟨linked,agree.mp delays⟩
    · rintro ⟨_,still⟩
      exact ⟨q',removed,by rw [gone]; exact Heap.erase_cell_same _ _,_,queued'.holds,agree.mpr still⟩
  · refine ⟨?_,fun both => absurd both.1 linked⟩
    have unset : back = none := by
      by_contra set
      exact linked (.inr ⟨_,cell,set⟩)
    obtain ⟨q',removed,queued',_⟩ := banoTimerDel_queued half_right queued cell (.inr ⟨unset,rfl⟩)
    rintro ⟨_,removed',_,ys,holds',delays⟩
    obtain rfl := Option.some.inj (removed'.symm.trans removed)
    obtain rfl := holds'.unique queued'.holds
    have lengths := congrArg List.length ((congrArg (List.map Prod.fst) delays).trans
      (congrArg (List.map Prod.fst) whole))
    simp only [List.map_append,delaysFrom_timers,List.length_append,List.length_map]
      at lengths
    refine absurd (.inl ?_) linked
    exact List.length_eq_zero_iff.mp (by omega)

def twoTimers : List TimerOp := [.add true true 100,.add true true 300]

theorem twoTimers_reach : ∃ q, TimerReach twoTimers q ∧ Holds q [(0,0),(1,1)] ∧
    relOf q 0 = 100 ∧ relOf q 1 = 200 := by
  refine ⟨_,.next (.next .start trivial rfl) trivial rfl,?_,rfl,rfl⟩
  exact ⟨rfl,_,rfl,rfl,rfl,_,rfl,rfl,rfl⟩

theorem removesOnly_iff_last : ∃ q, TimerReach twoTimers q ∧ (RemovesOnly q [(0,0),(1,1)] 1 ↔
    LinkedBack q [(0,0)] 1 ∧ (([] : List (Ptr × Ptr)) = [] ∨ relOf q 1 = 0)) := by
  obtain ⟨q,reach,holds,_⟩ := twoTimers_reach
  have split : Holds q ([(0,0)] ++ (1,1) :: []) := holds
  exact ⟨q,reach,removesOnly_iff reach split⟩

/-- Once the timer due at 100 is deleted, the one due at 300 has only 200 left. -/
theorem deletion_advances_successor : ¬∀ ops q xs t, TimerReach ops q → Holds q xs →
    t ∈ xs.map Prod.snd → RemovesOnly q xs t := by
  intro always
  obtain ⟨q,reach,holds,first,second⟩ := twoTimers_reach
  obtain ⟨xs,queued⟩ := reach_queued reach
  obtain rfl := queued.holds.unique holds
  obtain ⟨⟨back,cell,backEq⟩,_⟩ := queued.linked.chain
  have whole : Queued Half q ([] ++ (0,0) :: [(1,1)]) := queued
  obtain ⟨q',removed,queued',_,same⟩ := banoTimerDel_queued half_right whole cell
    (.inl ⟨backEq.elim id id,rfl⟩)
  obtain ⟨_,removed',_,ys,holds',delays⟩ := always _ q _ 0 reach holds (by simp)
  obtain rfl := Option.some.inj (removed'.symm.trans removed)
  obtain rfl := holds'.unique queued'.holds
  have kept := same (1,1) (by simp)
  simp [delaysFrom,first,second,kept] at delays

end Bano
