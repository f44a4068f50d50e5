import Bano.LinkedList
import Bano.Timer

/-! The deadlines of a timer queue: an insertion moves none of them, and its arithmetic does not wrap. -/
namespace Bano

open Lib

/-- The timers with their remaining delays, as they are read from the head. -/
def deadlines (q : TimerQueue) : List (Ptr × Nat) := delaysFrom q 0 (entriesOf q.list)

/-- An addition or a subtraction of unsigned integers. -/
inductive Arith where
  | add (x y : U32)
  | sub (x y : U32)

def Arith.NoWrap : Arith → Prop
  | .add x y => x.toNat + y.toNat < 2 ^ 32
  | .sub x y => y.toNat ≤ x.toNat

/-- Those of the loop of bano_timer_add. -/
def findPlaceOps (q : TimerQueue) (ms : U32) : Nat → Option Ptr → U32 → List Arith
  | 0, _, _ => []
  | _ + 1, none, _ => []
  | fuel + 1, some it, msSum =>
    match (q.list.items.cell it).bind fun k => (q.timers.cell k.data).map fun ti => (k.next,ti.relMs) with
    | none => []
    | some (next,relMs) =>
      .add msSum relMs :: if ms < msSum + relMs then []
        else .add msSum relMs :: findPlaceOps q ms fuel next (msSum + relMs)

/-- Those of bano_timer_add, where the allocations succeed. -/
def banoTimerAddOps (q : TimerQueue) (ms : U32) : List Arith :=
  findPlaceOps q ms (q.list.items.next + 1) q.list.head 0 ++
    match findPlace q ms (q.list.items.next + 1) q.list.head 0 with
    | none => []
    | some (none,msSum) => [.sub ms msSum]
    | some (some it,msSum) =>
      match (q.list.items.cell it).bind fun k => q.timers.cell k.data with
      | none => [.sub ms msSum]
      | some next => [.sub ms msSum,.add msSum next.relMs,.sub (msSum + next.relMs) ms]

/-- No deadline is before the sum that it starts from, nor after that of the last. -/
theorem delaysFrom_bounds (member : d ∈ delaysFrom q sum xs) : sum ≤ d.2 ∧ d.2 ≤ sum + total q xs := by
  induction xs generalizing sum with
  | nil => exact nomatch member
  | cons e xs ih =>
    rw [total_cons]
    rcases List.mem_cons.mp member with rfl | later
    · constructor
      · exact Nat.le_add_right _ _
      · dsimp only
        omega
    · have bounds := ih later
      omega

/-- An insertion adds its deadline and moves none. -/
theorem Inserted.deadlines {q q' : TimerQueue} (inserted : Inserted q q' ms front rest e.2) :
    delaysFrom q' 0 (front ++ e :: rest) = delaysFrom q 0 front ++ (e.2,ms) ::
      delaysFrom q (Bano.total q front) rest := by
  have due := inserted.due
  have added := inserted.added
  rw [delaysFrom_append,delaysFrom_congr inserted.kept,total_eq inserted.kept,delaysFrom]
  have here : 0 + Bano.total q front + relOf q' e.2 = ms := by omega
  rw [here]
  cases rest with
  | nil => rfl
  | cons d rest =>
    obtain ⟨next,others⟩ := inserted.shortened d rest rfl
    have later := inserted.later d rest rfl
    have same : ms + relOf q' d.2 = Bano.total q front + relOf q d.2 := by omega
    rw [delaysFrom,delaysFrom,same,delaysFrom_congr others]

theorem Queued.half {q : TimerQueue} (queued : Queued Exact q xs) : Queued Half q xs :=
  ⟨Linked.half queued.linked,queued.timer,queued.bounded⟩

/-- An item whose backward links are right is inserted. -/
theorem banoListAddBefore_exact {l : BanoList α} (linked : Linked l (front ++ e :: rest)) (a : α) : ∃ l',
    banoListAddBefore true l e.1 a = some (0,l') ∧ BackLink l' e l.items.next := by
  rcases concat_cases front with rfl | ⟨ys,q,c,rfl⟩
  · obtain ⟨l',added,_,_,back⟩ := banoListAddBefore_head exact_right linked a
    exact ⟨l',added,back⟩
  · have split : LinkedBy Half l (ys ++ (q,c) :: (e.1,e.2) :: rest) := by simpa using Linked.half linked
    obtain ⟨_,⟨back,cell,backEq⟩,_⟩ := segment_append.mp linked.chain
    have prev : back = some q := by simpa [Exact] using backEq
    obtain ⟨l',added,_,_,_,back'⟩ := banoListAddBefore_middle (fun _ => .inr rfl) half_right split a cell prev
    exact ⟨l',added,back'⟩

theorem banoTimerAdd_some {q : TimerQueue} (queued : Queued Exact q xs) (ms : U32) :
    ∃ q', banoTimerAdd true true q ms = some (some q.timers.next,q') := by
  obtain ⟨front,rest,msSum,rfl,found,_⟩ := queued.place ms
  simp only [banoTimerAdd,found,Option.bind_eq_bind,Option.bind_some,if_true]
  cases rest with
  | nil =>
    obtain ⟨list,added,linked,_⟩ := banoListAddTail_linked exact_right queued.linked q.timers.next
    have tail : list.tail = some q.list.items.next := by simp [linked.tail]
    exact ⟨_,by simp only [first_nil,added,if_true,Option.bind_some,tail]; rfl⟩
  | cons e rest =>
    obtain ⟨list,added,k,cell,data,prev⟩ := banoListAddBefore_exact queued.linked q.timers.next
    obtain ⟨ti,live,_⟩ := queued.timer e (by simp)
    have live' := Heap.alloc_cell_live live ⟨ms - msSum,q.list.items.next,none⟩
    exact ⟨_,by simp only [first_cons,added,if_true,Option.bind_some,cell,prev,data,Heap.update_live live']; rfl⟩

theorem findPlaceOps_noWrap {q : TimerQueue} (ms msSum : U32) (fuel : Nat)
    (chain : Segment ok q.list.items before xs none)
    (timer : ∀ e ∈ xs, ∃ ti, q.timers.cell e.2 = some ti) (bounded : msSum.toNat + total q xs < 2 ^ 32) :
    ∀ op ∈ findPlaceOps q ms fuel (first xs none) msSum, op.NoWrap := by
  induction fuel generalizing before xs msSum with
  | zero => exact fun _ member => nomatch member
  | succ fuel ih =>
    cases xs with
    | nil => exact fun _ member => nomatch member
    | cons e xs =>
      obtain ⟨⟨back,cell,_⟩,rest⟩ := chain
      obtain ⟨ti,live⟩ := timer e List.mem_cons_self
      rw [total_cons,relOf_live live] at bounded
      have fits : Arith.NoWrap (.add msSum ti.relMs) := by
        simp only [Arith.NoWrap]
        omega
      have sum : (msSum + ti.relMs).toNat = msSum.toNat + ti.relMs.toNat := by
        rw [BitVec.toNat_add]
        omega
      have later := ih (msSum + ti.relMs) rest (fun d member => timer d (List.mem_cons_of_mem _ member)) (by omega)
      intro op member
      simp only [findPlaceOps,first_cons,cell,live,Option.bind_some,Option.map_some] at member
      split at member
      · obtain rfl := List.mem_singleton.mp member
        exact fits
      · rcases List.mem_cons.mp member with rfl | member
        · exact fits
        rcases List.mem_cons.mp member with rfl | member
        · exact fits
        · exact later op member

theorem Queued.ops_noWrap {q : TimerQueue} (queued : Queued ok q xs) (ms : U32) :
    ∀ op ∈ banoTimerAddOps q ms, op.NoWrap := by
  have timer : ∀ e ∈ xs, ∃ ti, q.timers.cell e.2 = some ti := fun e member =>
    (queued.timer e member).imp fun _ => And.left
  have loop := findPlaceOps_noWrap ms 0 (q.list.items.next + 1) queued.linked.chain timer
    (by simpa using queued.bounded)
  rw [← queued.linked.head] at loop
  obtain ⟨front,rest,msSum,rfl,found,sum,due,after⟩ := queued.place ms
  have first' : Arith.NoWrap (.sub ms msSum) := due
  intro op member
  rcases List.mem_append.mp member with early | late
  · exact loop op early
  rw [found] at late
  cases rest with
  | nil =>
    obtain rfl := List.mem_singleton.mp late
    exact first'
  | cons e rest =>
    obtain ⟨ti,live,_⟩ := queued.timer e (by simp)
    obtain ⟨k,cell,data⟩ := queued.linked.live (e := e) (by simp)
    have later := after e rest rfl
    have bound := queued.bounded
    rw [relOf_live live] at later
    simp only [total_append,total_cons,relOf_live live] at bound
    have plus : (msSum + ti.relMs).toNat = msSum.toNat + ti.relMs.toNat := by
      rw [BitVec.toNat_add]
      omega
    simp only [first_cons,cell,Option.bind_some,data,live,List.mem_cons,List.not_mem_nil,or_false] at late
    rcases late with rfl | rfl | rfl
    · exact first'
    · simp only [Arith.NoWrap]
      omega
    · simp only [Arith.NoWrap]
      omega

/-- An insertion into a queue that is linked in both directions: the new timer is due after
`ms`, behind those that are due by then, and every other is due when it was. -/
theorem banoTimerAdd_keeps {q : TimerQueue} (queued : Queued Exact q (entriesOf q.list)) (ms : U32) : ∃ q' front rest,
    banoTimerAdd true true q ms = some (some q.timers.next,q') ∧
    deadlines q = front ++ rest ∧ deadlines q' = front ++ (q.timers.next,ms.toNat) :: rest ∧
    (∀ d ∈ front, d.2 ≤ ms.toNat) ∧ (∀ d ∈ rest, ms.toNat < d.2) ∧
    (∀ op ∈ banoTimerAddOps q ms, op.NoWrap) ∧ Queued Half q' (entriesOf q'.list) := by
  obtain ⟨q',added⟩ := banoTimerAdd_some queued ms
  rcases banoTimerAdd_cases queued.half added with ⟨failed,_⟩ | ⟨front,rest,split,_,inserted,queued'⟩
  · exact nomatch failed
  have entries := entriesOf_linked queued'.linked
  refine ⟨q',delaysFrom q 0 front,delaysFrom q (total q front) rest,added,?_,?_,?_,?_,queued.ops_noWrap ms,?_⟩
  · rw [deadlines,split,delaysFrom_append,Nat.zero_add]
  · rw [deadlines,entries]
    exact inserted.deadlines (e := (q.list.items.next,q.timers.next))
  · intro d member
    have bounds := delaysFrom_bounds member
    have due := inserted.due
    omega
  · intro d member
    cases rest with
    | nil => exact nomatch member
    | cons e rest =>
      have later := inserted.later e rest rfl
      rcases List.mem_cons.mp member with rfl | member
      · exact later
      · have bounds := delaysFrom_bounds member
        omega
  · rwa [entries]

/-- A timer that is due after 5 milliseconds. -/
def oneTimer : TimerQueue := ⟨⟨some 0,some 0,Heap.empty.alloc ⟨0,none,none⟩⟩,Heap.empty.alloc ⟨5,0,none⟩⟩

theorem oneTimer_queued : Queued Exact oneTimer [(0,0)] := by
  refine ⟨⟨rfl,rfl,⟨⟨none,rfl,rfl⟩,trivial⟩,by simp⟩,?_,by decide⟩
  intro e member
  obtain rfl := List.mem_singleton.mp member
  exact ⟨_,rfl,rfl⟩

theorem banoTimerAdd_keeps_before : ∃ q', banoTimerAdd true true oneTimer 3 = some (some 1,q') ∧
    deadlines q' = [(1,3),(0,5)] := by
  have entries : entriesOf oneTimer.list = [(0,0)] := entriesOf_linked oneTimer_queued.linked
  have queued : Queued Exact oneTimer (entriesOf oneTimer.list) := by
    rw [entries]
    exact oneTimer_queued
  obtain ⟨q',front,rest,added,old,new,due,_⟩ := banoTimerAdd_keeps queued 3
  refine ⟨q',added,new.trans ?_⟩
  have old' : front ++ rest = [(0,5)] := old.symm
  cases front with
  | nil =>
    obtain rfl := old'
    rfl
  | cons d front =>
    obtain ⟨rfl,_⟩ := List.cons.inj old'
    exact absurd (due _ List.mem_cons_self) (by decide)

end Bano
