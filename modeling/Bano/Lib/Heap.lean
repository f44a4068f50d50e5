/-! Stores of numbered cells. A number is handed out once, so a stale pointer never
comes to designate another cell; reading or releasing a cell that is not live has no
result. Nothing here bounds the number of cells. -/
namespace Lib

structure Heap (α : Type) where
  next : Nat
  cell : Nat → Option α
  fresh : ∀ p, next ≤ p → cell p = none

namespace Heap

def empty : Heap α := ⟨0, fun _ => none, fun _ _ => rfl⟩

/-- The new cell is `h.next`. -/
def alloc (h : Heap α) (value : α) : Heap α where
  next := h.next + 1
  cell := fun p => if p = h.next then some value else h.cell p
  fresh := by
    intro p bound
    rw [if_neg (by omega)]
    exact h.fresh p (by omega)

def modify (h : Heap α) (p : Nat) (f : α → α) : Heap α where
  next := h.next
  cell := fun q => if q = p then (h.cell q).map f else h.cell q
  fresh := by
    intro q bound
    simp [h.fresh q bound]

def erase (h : Heap α) (p : Nat) : Heap α where
  next := h.next
  cell := fun q => if q = p then none else h.cell q
  fresh := by
    intro q bound
    simp [h.fresh q bound]

/-- Writing through a pointer that is not live has no result. -/
def update (h : Heap α) (p : Nat) (f : α → α) : Option (Heap α) :=
  (h.cell p).map fun _ => h.modify p f

/-- Writing through a pointer unless it is NULL. -/
def updateOpt (h : Heap α) (p : Option Nat) (f : α → α) : Option (Heap α) :=
  match p with
  | some p => h.update p f
  | none => some h

/-- Releasing twice has no result either. -/
def free (h : Heap α) (p : Nat) : Option (Heap α) :=
  (h.cell p).map fun _ => h.erase p

theorem ext {h h' : Heap α} (next : h.next = h'.next) (cell : ∀ p, h.cell p = h'.cell p) : h = h' := by
  cases h
  cases h'
  obtain rfl : _ = _ := next
  obtain rfl := funext cell
  rfl

@[simp] theorem empty_next : (empty : Heap α).next = 0 := rfl

@[simp] theorem empty_cell (p : Nat) : (empty : Heap α).cell p = none := rfl

theorem alloc_cell (h : Heap α) (value : α) (p : Nat) :
    (h.alloc value).cell p = if p = h.next then some value else h.cell p := rfl

@[simp] theorem alloc_cell_next (h : Heap α) (value : α) :
    (h.alloc value).cell h.next = some value := by simp [alloc]

@[simp] theorem alloc_cell_other {h : Heap α} (apart : p ≠ h.next) (value : α) :
    (h.alloc value).cell p = h.cell p := by simp [alloc,apart]

@[simp] theorem alloc_next (h : Heap α) (value : α) : (h.alloc value).next = h.next + 1 := rfl

theorem modify_cell (h : Heap α) (p q : Nat) (f : α → α) :
    (h.modify p f).cell q = if q = p then (h.cell q).map f else h.cell q := rfl

@[simp] theorem modify_cell_same (h : Heap α) (p : Nat) (f : α → α) :
    (h.modify p f).cell p = (h.cell p).map f := by simp [modify]

@[simp] theorem modify_cell_other (apart : q ≠ p) (h : Heap α) (f : α → α) :
    (h.modify p f).cell q = h.cell q := by simp [modify,apart]

@[simp] theorem modify_next (h : Heap α) (p : Nat) (f : α → α) : (h.modify p f).next = h.next := rfl

theorem erase_cell (h : Heap α) (p q : Nat) :
    (h.erase p).cell q = if q = p then none else h.cell q := rfl

@[simp] theorem erase_cell_same (h : Heap α) (p : Nat) : (h.erase p).cell p = none := by simp [erase]

@[simp] theorem erase_cell_other (apart : q ≠ p) (h : Heap α) :
    (h.erase p).cell q = h.cell q := by simp [erase,apart]

@[simp] theorem erase_next (h : Heap α) (p : Nat) : (h.erase p).next = h.next := rfl

theorem update_eq_some {h h' : Heap α} : update h p f = some h' ↔ (∃ a, h.cell p = some a) ∧ h' = h.modify p f := by
  cases live : h.cell p <;> simp [update,live,eq_comm]

theorem free_eq_some {h h' : Heap α} : free h p = some h' ↔ (∃ a, h.cell p = some a) ∧ h' = h.erase p := by
  cases live : h.cell p <;> simp [free,live,eq_comm]

theorem update_live {h : Heap α} (live : h.cell p = some a) (f : α → α) : update h p f = some (h.modify p f) := by
  simp [update,live]

theorem free_live {h : Heap α} (live : h.cell p = some a) : free h p = some (h.erase p) := by simp [free,live]

/-- A live cell was handed out before. -/
theorem lt_next {h : Heap α} (live : h.cell p = some a) : p < h.next := by
  apply Nat.lt_of_not_le
  intro bound
  simp [h.fresh p bound] at live

theorem next_ne {h : Heap α} (live : h.cell p = some a) : p ≠ h.next := Nat.ne_of_lt (lt_next live)

/-- Allocation moves no live cell. -/
theorem alloc_cell_live {h : Heap α} (live : h.cell p = some a) (value : α) :
    (h.alloc value).cell p = some a := by simp [alloc,next_ne live,live]

@[simp] theorem cell_next (h : Heap α) : h.cell h.next = none := h.fresh _ (Nat.le_refl _)

/-- Overwriting a cell just allocated. -/
theorem alloc_modify (h : Heap α) (a : α) (f : α → α) : (h.alloc a).modify h.next f = h.alloc (f a) := by
  refine ext rfl fun p => ?_
  by_cases here : p = h.next
  · subst here
    simp
  · simp [here]

theorem alloc_erase_cell (h : Heap α) (a : α) (p : Nat) : ((h.alloc a).erase h.next).cell p = h.cell p := by
  by_cases here : p = h.next
  · subst here
    simp
  · simp [here]

end Heap
end Lib
