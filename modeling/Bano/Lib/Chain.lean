import Bano.Lib.Heap

/-! Segments of doubly linked cells. `Segment` checks the forward links exactly and leaves
what a backward link may be to a relation, so that chains whose backward links were left
unset are described too. `Follows` is the observable side: what a traversal meets. -/
namespace Lib

structure Link (α : Type) where
  data : α
  next : Option Nat
  prev : Option Nat

/-- Where a forward traversal of `xs`, followed by `after`, starts. -/
def first : List (Nat × α) → Option Nat → Option Nat
  | [], after => after
  | e :: _, _ => some e.1

/-- Where a backward traversal of `xs`, preceded by `before`, starts. -/
def final : Option Nat → List (Nat × α) → Option Nat
  | before, [] => before
  | _, e :: xs => final (some e.1) xs

def Segment (ok : Option Nat → Option Nat → Prop) (h : Heap (Link α)) :
    Option Nat → List (Nat × α) → Option Nat → Prop
  | _, [], _ => True
  | before, (p,a) :: xs, after =>
    (∃ back, h.cell p = some ⟨a,first xs after,back⟩ ∧ ok before back) ∧
    Segment ok h (some p) xs after

/-- `xs` is exactly what a traversal by `step` meets from `start` until NULL. -/
def Follows (step : Link α → Option Nat) (h : Heap (Link α)) : Option Nat → List (Nat × α) → Prop
  | start, [] => start = none
  | start, (p,a) :: xs => start = some p ∧ ∃ k, h.cell p = some k ∧ k.data = a ∧ Follows step h (step k) xs

@[simp] theorem first_nil (after : Option Nat) : first ([] : List (Nat × α)) after = after := rfl

@[simp] theorem first_cons (e : Nat × α) (xs : List (Nat × α)) (after : Option Nat) :
    first (e :: xs) after = some e.1 := rfl

@[simp] theorem final_nil (before : Option Nat) : final before ([] : List (Nat × α)) = before := rfl

@[simp] theorem final_cons (before : Option Nat) (e : Nat × α) (xs : List (Nat × α)) :
    final before (e :: xs) = final (some e.1) xs := rfl

@[simp] theorem first_append (xs ys : List (Nat × α)) (after : Option Nat) :
    first (xs ++ ys) after = first xs (first ys after) := by cases xs <;> rfl

@[simp] theorem final_append (before : Option Nat) (xs ys : List (Nat × α)) :
    final before (xs ++ ys) = final (final before xs) ys := by
  induction xs generalizing before with
  | nil => rfl
  | cons e xs ih => exact ih _

@[simp] theorem final_some (p : Nat) (xs : List (Nat × α)) : final (some p) xs ≠ none := by
  induction xs generalizing p with
  | nil => simp
  | cons e xs ih => exact ih _

theorem segment_append {ok : Option Nat → Option Nat → Prop} {h : Heap (Link α)} :
    Segment ok h before (xs ++ ys) after ↔
      Segment ok h before xs (first ys after) ∧ Segment ok h (final before xs) ys after := by
  induction xs generalizing before with
  | nil => simp [Segment]
  | cons e xs ih => simp [Segment,ih,and_assoc]

/-- A segment depends on its own cells only. -/
theorem segment_congr {ok : Option Nat → Option Nat → Prop} {h h' : Heap (Link α)}
    (segment : Segment ok h before xs after) (same : ∀ e ∈ xs, h'.cell e.1 = h.cell e.1) :
    Segment ok h' before xs after := by
  induction xs generalizing before with
  | nil => trivial
  | cons e xs ih =>
    obtain ⟨⟨back,cell,allowed⟩,rest⟩ := segment
    refine ⟨⟨back,?_,allowed⟩,ih rest (fun d member => same d (List.mem_cons_of_mem _ member))⟩
    rw [same _ List.mem_cons_self]
    exact cell

theorem segment_mono {ok ok' : Option Nat → Option Nat → Prop} {h : Heap (Link α)}
    (segment : Segment ok h before xs after) (weaker : ∀ b k, ok b k → ok' b k) :
    Segment ok' h before xs after := by
  induction xs generalizing before with
  | nil => trivial
  | cons e xs ih =>
    obtain ⟨⟨back,cell,allowed⟩,rest⟩ := segment
    exact ⟨⟨back,cell,weaker _ _ allowed⟩,ih rest⟩

theorem segment_live {ok : Option Nat → Option Nat → Prop} {h : Heap (Link α)}
    (segment : Segment ok h before xs after) (member : e ∈ xs) :
    ∃ k, h.cell e.1 = some k ∧ k.data = e.2 := by
  induction xs generalizing before with
  | nil => simp at member
  | cons d xs ih =>
    obtain ⟨⟨back,cell,_⟩,rest⟩ := segment
    rcases List.mem_cons.mp member with rfl | later
    · exact ⟨_,cell,rfl⟩
    · exact ih rest later

/-- Redirecting the last forward link. -/
theorem segment_extend {ok : Option Nat → Option Nat → Prop} {h : Heap (Link α)}
    (segment : Segment ok h before (xs ++ [(p,a)]) after) (apart : ∀ e ∈ xs, e.1 ≠ p)
    (target : Option Nat) :
    Segment ok (h.modify p fun k => { k with next := target }) before (xs ++ [(p,a)]) target := by
  obtain ⟨front,⟨back,cell,allowed⟩,_⟩ := segment_append.mp segment
  refine segment_append.mpr ⟨?_,⟨back,by simp [cell],allowed⟩,trivial⟩
  exact segment_congr front fun e member => Heap.modify_cell_other (apart e member) _ _

/-- Redirecting the first backward link. -/
theorem segment_reback {ok : Option Nat → Option Nat → Prop} {h : Heap (Link α)}
    (segment : Segment ok h before ((p,a) :: xs) after) (apart : ∀ e ∈ xs, e.1 ≠ p)
    (allowed : ok before' back') :
    Segment ok (h.modify p fun k => { k with prev := back' }) before' ((p,a) :: xs) after := by
  obtain ⟨⟨back,cell,_⟩,rest⟩ := segment
  refine ⟨⟨back',by simp [cell],allowed⟩,?_⟩
  exact segment_congr rest fun e member => Heap.modify_cell_other (apart e member) _ _

theorem follows_unique {step : Link α → Option Nat} {h : Heap (Link α)}
    (one : Follows step h start xs) (other : Follows step h start ys) : xs = ys := by
  induction xs generalizing start ys with
  | nil =>
    obtain rfl : start = none := one
    cases ys with
    | nil => rfl
    | cons e ys => exact absurd other.1 (by simp)
  | cons e xs ih =>
    obtain ⟨rfl,k,cell,data,rest⟩ := one
    cases ys with
    | nil => exact absurd other (by simp [Follows])
    | cons d ys =>
      obtain ⟨at',k',cell',data',rest'⟩ := other
      obtain rfl : k = k' := by rw [← Option.some.inj at',cell] at cell'; exact Option.some.inj cell'
      rw [ih rest rest']
      exact congrArg (· :: ys) (Prod.ext (Option.some.inj at') (data.symm.trans data'))

theorem segment_follows_next {ok : Option Nat → Option Nat → Prop} {h : Heap (Link α)}
    (segment : Segment ok h before xs none) : Follows Link.next h (first xs none) xs := by
  induction xs generalizing before with
  | nil => rfl
  | cons e xs ih =>
    obtain ⟨⟨back,cell,_⟩,rest⟩ := segment
    exact ⟨rfl,_,cell,rfl,ih rest⟩

/-- Backward links that are exact lead from the far end of the segment to what precedes it. -/
theorem segment_follows_prev {h : Heap (Link α)}
    (segment : Segment (fun b k => k = b) h before xs after) (front : Follows Link.prev h before ys) :
    Follows Link.prev h (final before xs) (xs.reverse ++ ys) := by
  induction xs generalizing before ys with
  | nil => simpa using front
  | cons e xs ih =>
    obtain ⟨⟨back,cell,rfl⟩,rest⟩ := segment
    have front' : Follows Link.prev h (some e.1) (e :: ys) := ⟨rfl,_,cell,rfl,front⟩
    simpa using ih rest front'

end Lib
