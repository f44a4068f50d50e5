import Mathlib.Algebra.GroupWithZero.Nat
import Mathlib.Tactic.Tauto
import Bano.Lib.Run
import Bano.BanoList

/-! The timer queue of bano_timer.c: a list of timers whose `relMs` is relative to the timer
before it. Additions and subtractions are those of 32-bit unsigned integers. -/
namespace Bano

open Lib

/-- `data` is what post_io stores: the node whose pending_ios is designated by data[0], and
the list item of data[1]; it is not set by bano_timer_add. -/
structure BanoTimer where
  relMs : U32
  it : Ptr
  data : Option (Ptr × Option Ptr)
  deriving DecidableEq

structure TimerQueue where
  list : BanoList Ptr
  timers : Heap BanoTimer

def banoTimerInit : TimerQueue := ⟨banoListInit,Heap.empty⟩

/-- The loop of bano_timer_add: the item to insert before, NULL at the end, and `ms_sum`. -/
def findPlace (q : TimerQueue) (ms : U32) : Nat → Option Ptr → U32 → Option (Option Ptr × U32)
  | 0, _, _ => none
  | _ + 1, none, msSum => some (none,msSum)
  | fuel + 1, some it, msSum => do
    let k ← q.list.items.cell it
    let ti ← q.timers.cell k.data
    if ms < msSum + ti.relMs then some (some it,msSum)
    else findPlace q ms fuel k.next (msSum + ti.relMs)

/-- The new timer, or none when the call returned -1. -/
def banoTimerAdd (mallocTimer mallocItem : Bool) (q : TimerQueue) (ms : U32) :
    Option (Option Ptr × TimerQueue) := do
  let (it,msSum) ← findPlace q ms (q.list.items.next + 1) q.list.head 0
  if mallocTimer then
    let ti := q.timers.next
    match it with
    | none =>
      -- last timer
      let (err,list) ← banoListAddTail mallocItem q.list ti
      if err = 0 then
        let item ← list.tail
        some (some ti,⟨list,q.timers.alloc ⟨ms - msSum,item,none⟩⟩)
      else some (none,q)
    | some it =>
      let (err,list) ← banoListAddBefore mallocItem q.list it ti
      if err = 0 then
        let k ← list.items.cell it
        let item ← k.prev
        -- recompute next relative time
        let timers ← (q.timers.alloc ⟨ms - msSum,item,none⟩).update k.data
          fun next => { next with relMs := (msSum + next.relMs) - ms }
        some (some ti,⟨list,timers⟩)
      else some (none,q)
  else some (none,q)

/-- The compensation of the successor is disabled in the source. -/
def banoTimerDel (q : TimerQueue) (t : Ptr) : Option TimerQueue := do
  let ti ← q.timers.cell t
  let (_,list) ← banoListDel q.list ti.it
  let timers ← q.timers.free t
  some ⟨list,timers⟩

structure Timeval where
  sec : Nat
  usec : Nat
  deriving DecidableEq

def banoTimerGetNext (q : TimerQueue) : Option (Option (Ptr × Timeval)) :=
  match q.list.head with
  | none => some none
  | some it => do
    let k ← q.list.items.cell it
    let ti ← q.timers.cell k.data
    some (some (k.data,⟨ti.relMs.toNat / 1000,ti.relMs.toNat % 1000 * 1000⟩))

def Timeval.relMs (tv : Timeval) : U32 := BitVec.ofNat 32 (tv.sec * 1000) + BitVec.ofNat 32 (tv.usec / 1000)

def banoTimerUpdate (q : TimerQueue) (t : Ptr) (tv : Timeval) : Option TimerQueue := do
  let timers ← q.timers.update t fun ti => { ti with relMs := tv.relMs }
  some ⟨q.list,timers⟩

def relOf (q : TimerQueue) (t : Ptr) : Nat := ((q.timers.cell t).map fun ti => ti.relMs.toNat).getD 0

/-- Delay of the last of `xs`, the entries of a queue being pairs of an item and its timer. -/
def total (q : TimerQueue) (xs : List (Ptr × Ptr)) : Nat := (xs.map fun e => relOf q e.2).sum

@[simp] theorem total_nil (q : TimerQueue) : total q [] = 0 := rfl

@[simp] theorem total_cons (q : TimerQueue) (e : Ptr × Ptr) (xs : List (Ptr × Ptr)) :
    total q (e :: xs) = relOf q e.2 + total q xs := by simp [total]

@[simp] theorem total_append (q : TimerQueue) (xs ys : List (Ptr × Ptr)) :
    total q (xs ++ ys) = total q xs + total q ys := by simp [total]

/-- The timers of `xs` with their remaining delays, `ms` being that of the timer before them. -/
def delaysFrom (q : TimerQueue) : Nat → List (Ptr × Ptr) → List (Ptr × Nat)
  | _, [] => []
  | ms, e :: xs => (e.2,ms + relOf q e.2) :: delaysFrom q (ms + relOf q e.2) xs

theorem delaysFrom_congr {q q' : TimerQueue} (same : ∀ e ∈ xs, relOf q' e.2 = relOf q e.2) :
    delaysFrom q' ms xs = delaysFrom q ms xs := by
  induction xs generalizing ms with
  | nil => rfl
  | cons e xs ih =>
    simp only [delaysFrom,same e List.mem_cons_self,ih fun d member => same d (List.mem_cons_of_mem _ member)]

theorem delaysFrom_append (q : TimerQueue) (xs ys : List (Ptr × Ptr)) :
    delaysFrom q ms (xs ++ ys) = delaysFrom q ms xs ++ delaysFrom q (ms + total q xs) ys := by
  induction xs generalizing ms with
  | nil => simp [delaysFrom]
  | cons e xs ih => simp [delaysFrom,ih,Nat.add_assoc]

/-- The queue holds the entries `xs`, each timer knows its item, and no delay wraps. -/
structure Queued (ok : Option Ptr → Option Ptr → Prop) (q : TimerQueue) (xs : List (Ptr × Ptr)) : Prop where
  linked : LinkedBy ok q.list xs
  timer : ∀ e ∈ xs, ∃ ti, q.timers.cell e.2 = some ti ∧ ti.it = e.1
  bounded : total q xs < 2 ^ 32

theorem banoTimerInit_queued (ok) : Queued ok banoTimerInit [] :=
  ⟨banoListInit_linked ok,by simp,by simp⟩

theorem relOf_live {q : TimerQueue} (cell : q.timers.cell t = some ti) : relOf q t = ti.relMs.toNat := by
  simp [relOf,cell]

/-- Distinct items carry distinct timers. -/
theorem Queued.timer_ne {q : TimerQueue} (queued : Queued ok q xs) (one : e ∈ xs) (other : d ∈ xs)
    (apart : e.1 ≠ d.1) : e.2 ≠ d.2 := by
  intro same
  obtain ⟨ti,cell,item⟩ := queued.timer e one
  obtain ⟨ti',cell',item'⟩ := queued.timer d other
  rw [same,cell'] at cell
  obtain rfl := Option.some.inj cell
  exact apart (item.symm.trans item')

/-- The place found: everything before it is due by `ms`, and it is not. -/
theorem findPlace_spec {q : TimerQueue} {ok} (ms msSum : U32) (fuel : Nat)
    (chain : Segment ok q.list.items before xs none)
    (timer : ∀ e ∈ xs, ∃ ti, q.timers.cell e.2 = some ti)
    (bounded : msSum.toNat + total q xs < 2 ^ 32) (due : msSum.toNat ≤ ms.toNat)
    (enough : xs.length < fuel) :
    ∃ front rest msSum', xs = front ++ rest ∧
      findPlace q ms fuel (first xs none) msSum = some (first rest none,msSum') ∧
      msSum'.toNat = msSum.toNat + total q front ∧ msSum'.toNat ≤ ms.toNat ∧
      ∀ e rest', rest = e :: rest' → ms.toNat < msSum'.toNat + relOf q e.2 := by
  induction xs generalizing before msSum fuel with
  | nil =>
    obtain ⟨fuel,rfl⟩ : ∃ n, fuel = n + 1 := ⟨fuel - 1,by simp at enough; omega⟩
    exact ⟨[],[],msSum,rfl,rfl,by simp,due,by simp⟩
  | cons e xs ih =>
    obtain ⟨fuel,rfl⟩ : ∃ n, fuel = n + 1 := ⟨fuel - 1,by simp at enough; omega⟩
    obtain ⟨⟨back,cell,_⟩,rest⟩ := chain
    obtain ⟨ti,live⟩ := timer e List.mem_cons_self
    have rel := relOf_live live
    simp only [total_cons,rel] at bounded
    have sum : (msSum + ti.relMs).toNat = msSum.toNat + ti.relMs.toNat := by
      rw [BitVec.toNat_add]; omega
    by_cases later : ms < msSum + ti.relMs
    · refine ⟨[],e :: xs,msSum,rfl,?_,by simp,due,?_⟩
      · simp [findPlace,cell,live,later]
      · rintro _ _ ⟨rfl,rfl⟩
        rw [rel,← sum]
        exact later
    · have due' : (msSum + ti.relMs).toNat ≤ ms.toNat := by
        simpa [BitVec.lt_def] using later
      obtain ⟨front,back,msSum',split,found,sums,before',after⟩ := ih (msSum + ti.relMs) fuel rest
        (fun d member => timer d (List.mem_cons_of_mem _ member)) (by omega) due'
        (by simp at enough; omega)
      refine ⟨e :: front,back,msSum',by simp [split],?_,?_,before',after⟩
      · simpa [findPlace,cell,live,later] using found
      · simp only [total_cons,rel]; omega

theorem total_congr {q q' : TimerQueue} (same : ∀ e ∈ xs, q'.timers.cell e.2 = q.timers.cell e.2) :
    total q' xs = total q xs := by
  unfold total
  congr 1
  apply List.map_congr_left
  intro e member
  simp only [relOf,same e member]

theorem Queued.place {q : TimerQueue} (queued : Queued ok q xs) (ms : U32) :
    ∃ front rest msSum, xs = front ++ rest ∧
      findPlace q ms (q.list.items.next + 1) q.list.head 0 = some (first rest none,msSum) ∧
      msSum.toNat = total q front ∧ msSum.toNat ≤ ms.toNat ∧
      ∀ e rest', rest = e :: rest' → ms.toNat < msSum.toNat + relOf q e.2 := by
  have timer : ∀ e ∈ xs, ∃ ti, q.timers.cell e.2 = some ti := fun e member =>
    (queued.timer e member).imp fun _ => And.left
  have enough : xs.length < q.list.items.next + 1 := Nat.lt_succ_of_le queued.linked.length
  have bounded : (0 : U32).toNat + total q xs < 2 ^ 32 := by simpa using queued.bounded
  obtain ⟨front,rest,msSum,split,found,sum,due,after⟩ :=
    findPlace_spec ms 0 _ queued.linked.chain timer bounded (Nat.zero_le _) enough
  rw [← queued.linked.head] at found
  exact ⟨front,rest,msSum,split,found,by simpa using sum,due,after⟩

theorem timer_fresh {q : TimerQueue} (queued : Queued ok q xs) (member : e ∈ xs) :
    e.2 ≠ q.timers.next := by
  obtain ⟨ti,cell,_⟩ := queued.timer e member
  exact Heap.next_ne cell

/-- A timer later than all others is appended; nothing else changes. -/
theorem banoTimerAdd_tail (right : ∀ b, ok b b) {q : TimerQueue} (queued : Queued ok q xs)
    (last : total q xs ≤ ms.toNat) :
    ∃ list rel, banoTimerAdd true true q ms = some (some q.timers.next,
        ⟨list,q.timers.alloc ⟨rel,q.list.items.next,none⟩⟩) ∧
      Queued ok ⟨list,q.timers.alloc ⟨rel,q.list.items.next,none⟩⟩
        (xs ++ [(q.list.items.next,q.timers.next)]) ∧
      rel.toNat = ms.toNat - total q xs := by
  obtain ⟨front,rest,msSum,rfl,found,sum,due,after⟩ := queued.place ms
  have atEnd : rest = [] := by
    cases rest with
    | nil => rfl
    | cons e rest =>
      have := after e rest rfl
      simp at last
      omega
  subst atEnd
  obtain ⟨list,added,linked,next⟩ := banoListAddTail_linked right queued.linked q.timers.next
  have tail : list.tail = some q.list.items.next := by simp [linked.tail]
  have rel : (ms - msSum).toNat = ms.toNat - total q (front ++ []) := by
    rw [BitVec.toNat_sub_of_le (by simpa [BitVec.le_def] using due)]; simp [sum]
  refine ⟨list,ms - msSum,?_,⟨linked,?_,?_⟩,rel⟩
  · simp only [banoTimerAdd,found,first_nil,added,tail,if_true,Option.bind_eq_bind,Option.bind_some]
  · intro e member
    rcases List.mem_append.mp member with old | new
    · obtain ⟨ti,cell,item⟩ := queued.timer e old
      exact ⟨ti,Heap.alloc_cell_live cell _,item⟩
    · obtain rfl := List.mem_singleton.mp new
      exact ⟨_,Heap.alloc_cell_next _ _,rfl⟩
  · have old : total ⟨list,q.timers.alloc ⟨ms - msSum,q.list.items.next,none⟩⟩ (front ++ []) =
        total q (front ++ []) :=
      total_congr fun e member => Heap.alloc_cell_other (timer_fresh queued member) _
    have new : relOf ⟨list,q.timers.alloc ⟨ms - msSum,q.list.items.next,none⟩⟩ q.timers.next =
        (ms - msSum).toNat := by simp only [relOf,Heap.alloc_cell_next,Option.map_some,Option.getD_some]
    rw [total_append,old,total_cons,total_nil,new,rel]
    have := ms.isLt
    omega

/-- Nothing is added without memory. -/
theorem banoTimerAdd_fails {q : TimerQueue} (queued : Queued ok q xs)
    (fails : (mallocTimer && mallocItem) = false) (ms : U32) :
    banoTimerAdd mallocTimer mallocItem q ms = some (none,q) := by
  obtain ⟨front,rest,msSum,_,found,_⟩ := queued.place ms
  simp only [banoTimerAdd,found,Option.bind_eq_bind,Option.bind_some]
  cases mallocTimer with
  | false => rfl
  | true =>
    obtain rfl : mallocItem = false := fails
    cases rest with
    | nil => simp [banoListAddTail]
    | cons e rest => simp [banoListAddBefore]

/-- What an insertion at delay `ms` between `front` and `rest` does to the relative delays. -/
structure Inserted (q q' : TimerQueue) (ms : Nat) (front rest : List (Ptr × Ptr)) (new : Ptr) : Prop where
  due : total q front ≤ ms
  later : ∀ e rest', rest = e :: rest' → ms < total q front + relOf q e.2
  kept : ∀ e ∈ front, relOf q' e.2 = relOf q e.2
  added : relOf q' new = ms - total q front
  shortened : ∀ e rest', rest = e :: rest' → relOf q' e.2 = total q front + relOf q e.2 - ms ∧
    ∀ d ∈ rest', relOf q' d.2 = relOf q d.2

theorem total_eq {q q' : TimerQueue} (same : ∀ e ∈ xs, relOf q' e.2 = relOf q e.2) :
    total q' xs = total q xs := by
  unfold total
  exact congrArg List.sum (List.map_congr_left same)

/-- Inserting before another timer changes no delay of the queue, at the end it adds one. -/
theorem Inserted.total {q q' : TimerQueue} (inserted : Inserted q q' ms front rest e.2) :
    Bano.total q' (front ++ e :: rest) = if rest = [] then ms else Bano.total q (front ++ rest) := by
  have due := inserted.due
  rw [total_append,total_eq inserted.kept,total_cons,inserted.added]
  cases rest with
  | nil => simp; omega
  | cons d rest =>
    obtain ⟨next,others⟩ := inserted.shortened d rest rfl
    have later := inserted.later d rest rfl
    simp only [total_cons,next,total_eq others,total_append]
    simp
    omega

theorem banoTimerAdd_cases {q : TimerQueue} (queued : Queued Half q xs)
    (result : banoTimerAdd mallocTimer mallocItem q ms = some (tip,q')) :
    tip = none ∧ q' = q ∨
    ∃ front rest, xs = front ++ rest ∧ tip = some q.timers.next ∧
      Inserted q q' ms.toNat front rest q.timers.next ∧
      Queued Half q' (front ++ (q.list.items.next,q.timers.next) :: rest) := by
  obtain ⟨front,rest,msSum,rfl,found,sum,due,after⟩ := queued.place ms
  have whole := result
  simp only [banoTimerAdd,found,Option.bind_eq_bind,Option.bind_some] at result
  cases mallocTimer with
  | false => left; simpa [eq_comm] using result
  | true =>
  cases rest with
  | nil =>
    cases mallocItem with
    | false => left; simpa [banoListAddTail,eq_comm] using result
    | true =>
      obtain ⟨list,rel,added,queued',relEq⟩ := banoTimerAdd_tail half_right queued
        (show total q (front ++ []) ≤ ms.toNat by simpa [← sum] using due)
      rw [added] at whole
      obtain ⟨rfl,rfl⟩ := Prod.mk.inj (Option.some.inj whole)
      refine .inr ⟨front,[],rfl,rfl,⟨sum ▸ due,by simp,?_,?_,by simp⟩,by simpa using queued'⟩
      · intro e member
        have fresh := timer_fresh queued (List.mem_append_left _ member)
        simp [relOf,fresh]
      · simpa [relOf] using relEq
  | cons e rest =>
    cases mallocItem with
    | false => left; simpa [banoListAddBefore,eq_comm] using result
    | true =>
      simp only [first_cons,if_true] at result
      rcases banoListAddBefore_half queued.linked q.timers.next with stuck | ⟨list,added,linked,back⟩
      · simp [stuck] at result
      obtain ⟨k,cell,data,prev⟩ := back
      obtain ⟨ti,live,item⟩ := queued.timer e (by simp)
      have fresh : e.2 ≠ q.timers.next := Heap.next_ne live
      have live' := Heap.alloc_cell_live live ⟨ms - msSum,q.list.items.next,none⟩
      simp only [added,if_true,cell,Option.bind_some,prev,data,Heap.update_live live',
        Option.some.injEq,Prod.mk.injEq] at result
      obtain ⟨rfl,rfl⟩ := result
      have later := after e rest rfl
      rw [relOf_live live] at later
      have newRel : (ms - msSum).toNat = ms.toNat - total q front := by
        rw [BitVec.toNat_sub_of_le (by simpa [BitVec.le_def] using due),sum]
      have nextRel : (msSum + ti.relMs - ms).toNat = total q front + ti.relMs.toNat - ms.toNat := by
        have bound := queued.bounded
        simp only [total_append,total_cons,relOf_live live] at bound
        have plus : (msSum + ti.relMs).toNat = total q front + ti.relMs.toNat := by
          rw [BitVec.toNat_add]; omega
        rw [BitVec.toNat_sub_of_le (by rw [BitVec.le_def]; omega),plus]
      have apart := nodup_apart queued.linked.nodup
      have other : ∀ d ∈ front ++ rest, d.2 ≠ e.2 ∧ d.2 ≠ q.timers.next := by
        intro d member
        have listed : d ∈ front ++ e :: rest := by
          simp only [List.mem_append,List.mem_cons] at member ⊢; tauto
        refine ⟨queued.timer_ne listed (by simp) ?_,timer_fresh queued listed⟩
        rcases List.mem_append.mp member with early | late
        · exact apart.1 d early
        · exact apart.2.1 d late
      have inserted : Inserted q ⟨list,(q.timers.alloc ⟨ms - msSum,q.list.items.next,none⟩).modify e.2
          fun next => { next with relMs := msSum + next.relMs - ms }⟩ ms.toNat front (e :: rest)
          q.timers.next := by
        refine ⟨sum ▸ due,?_,?_,?_,?_⟩
        · rintro _ _ ⟨rfl,rfl⟩
          rw [relOf_live live,← sum]
          exact later
        · intro d member
          simp [relOf,other d (List.mem_append_left _ member)]
        · simp [relOf,fresh.symm,newRel]
        · rintro _ _ ⟨rfl,rfl⟩
          refine ⟨by simp [relOf,live,live',nextRel],fun d member => ?_⟩
          simp [relOf,other d (List.mem_append_right _ member)]
      refine .inr ⟨front,e :: rest,rfl,rfl,inserted,linked,?_,?_⟩
      · intro d member
        have cases : d = (q.list.items.next,q.timers.next) ∨ d = e ∨ d ∈ front ++ rest := by
          simp only [List.mem_append,List.mem_cons] at member ⊢; tauto
        rcases cases with rfl | rfl | elsewhere
        · exact ⟨⟨ms - msSum,q.list.items.next,none⟩,by simp [fresh.symm],rfl⟩
        · exact ⟨{ ti with relMs := msSum + ti.relMs - ms },by simp [live'],item⟩
        · obtain ⟨di,cell,same⟩ := queued.timer d (by
            simp only [List.mem_append,List.mem_cons] at elsewhere ⊢; tauto)
          exact ⟨di,by simp [other d elsewhere,cell],same⟩
      · have sums := inserted.total (e := (q.list.items.next,q.timers.next))
        rw [sums,if_neg (by simp)]
        exact queued.bounded

end Bano
