import Mathlib.Data.Nat.Digits.Defs
import Mathlib.Data.List.Forall2

/-! Numbers in positional notation, over any symbols: what a string of digits denotes, and
how a scan that stops at the first symbol that is no digit reads it. -/
namespace Lib

/-- Every symbol is a digit, and these are their values. -/
def Spells (digit : α → Option Nat) (s : List α) (ds : List Nat) : Prop :=
  List.Forall₂ (fun c d => digit c = some d) s ds

/-- The first digit is the highest. -/
def positional (base : Nat) (ds : List Nat) : Nat := Nat.ofDigits base ds.reverse

theorem positional_eq_foldl (base : Nat) (ds : List Nat) :
    positional base ds = ds.foldl (fun n d => n * base + d) 0 := by
  rw [positional,Nat.ofDigits_eq_foldr,List.foldr_reverse]
  congr 1
  funext n d
  simp [Nat.mul_comm,Nat.add_comm]

theorem positional_cons (base d : Nat) (ds : List Nat) :
    positional base (d :: ds) = d * base ^ ds.length + positional base ds := by
  simp only [positional,List.reverse_cons,Nat.ofDigits_append,Nat.ofDigits_singleton,List.length_reverse]
  rw [Nat.mul_comm,Nat.add_comm]

/-- The digits of a number, the highest first. -/
theorem positional_digits (base n : Nat) : positional base (Nat.digits base n).reverse = n := by
  rw [positional,List.reverse_reverse,Nat.ofDigits_digits]

theorem Spells.length (spells : Spells digit s ds) : s.length = ds.length := List.Forall₂.length_eq spells

/-- Digits written one by one. -/
theorem Spells.map {write : Nat → α} (reads : ∀ d ∈ ds, digit (write d) = some d) :
    Spells digit (ds.map write) ds := by
  induction ds with
  | nil => exact .nil
  | cons d ds ih =>
    apply List.Forall₂.cons
    · exact reads d (by simp)
    · exact ih fun d member => reads d (by simp [member])

theorem Spells.foldl {value : α → Nat} (spells : Spells digit s ds) (agree : ∀ c d, digit c = some d → value c = d)
    (base n : Nat) : s.foldl (fun n c => n * base + value c) n = ds.foldl (fun n d => n * base + d) n := by
  induction spells generalizing n with
  | nil => rfl
  | cons head _ ih => rw [List.foldl_cons,List.foldl_cons,agree _ _ head,ih]

/-- The scan takes the digits and leaves what follows them. -/
theorem Spells.takeWhile {taken : α → Bool} (spells : Spells digit s ds)
    (take : ∀ c d, digit c = some d → taken c = true)
    (stop : ∀ c ∈ after.head?, taken c = false) : (s ++ after).takeWhile taken = s := by
  induction spells with
  | nil =>
    cases after with
    | nil => rfl
    | cons c after => simp [stop c (by simp)]
  | cons head _ ih => rw [List.cons_append,List.takeWhile_cons,if_pos (take _ _ head),ih]

end Lib
