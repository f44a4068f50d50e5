import Mathlib.Data.List.Perm.Basic

/-! Rasters: the rows that a block of values consists of, and the
places of its pixels, row by row or square by square. -/
namespace Lib

/-- The r-th row of l values. -/
def row (l r : Nat) (block : List α) : List α := (block.drop (r * l)).take l

def rows (l h : Nat) (block : List α) : List (List α) := (List.range h).map fun r => row l r block

/-- A value for each place, the first row first. -/
def pixels (w h : Nat) (f : Nat → Nat → α) : List α := (List.range h).flatMap fun r => (List.range w).map (f r)

/-- The same values in squares of four, each column by column. -/
def squares (w h : Nat) (f : Nat → Nat → α) : List α :=
  (List.range h).flatMap fun r => (List.range w).flatMap fun c =>
    [f (2 * r) (2 * c),f (2 * r + 1) (2 * c),f (2 * r) (2 * c + 1),f (2 * r + 1) (2 * c + 1)]

theorem rows_flatten (l h : Nat) (block : List α) : (rows l h block).flatten = block.take (h * l) := by
  induction h with
  | zero => simp [rows]
  | succ h ih =>
    rw [rows] at ih
    rw [rows,List.range_succ,List.map_append,List.flatten_append,ih,Nat.succ_mul,List.take_add]
    simp [row]

theorem rows_lengths {block : List α} (whole : block.length = h * l) (x : List α) (member : x ∈ rows l h block) :
    x.length = l := by
  obtain ⟨r,inside,rfl⟩ := List.mem_map.mp member
  have below : (r + 1) * l ≤ h * l := Nat.mul_le_mul_right l (List.mem_range.mp inside)
  rw [Nat.succ_mul] at below
  rw [row,List.length_take,List.length_drop]
  omega

theorem row_flatten {xs : List (List α)} (lengths : ∀ x ∈ xs, x.length = l) (inside : r < xs.length) :
    row l r xs.flatten = xs[r] := by
  induction xs generalizing r with
  | nil => exact absurd inside (Nat.not_lt_zero r)
  | cons x xs ih =>
    have head := lengths x (by simp)
    cases r with
    | zero => simp [row,head]
    | succ r =>
      have later := ih (fun y member => lengths y (by simp [member])) (Nat.lt_of_succ_lt_succ inside)
      rw [row] at later ⊢
      rw [List.flatten_cons,Nat.succ_mul,Nat.add_comm,← List.drop_drop,← head,List.drop_left,head,later]
      rfl

theorem flatten_lengths {xs : List (List α)} (lengths : ∀ x ∈ xs, x.length = l) :
    xs.flatten.length = xs.length * l := by
  induction xs with
  | nil => simp
  | cons x xs ih =>
    rw [List.flatten_cons,List.length_append,lengths x (by simp),
      ih fun y member => lengths y (by simp [member]),List.length_cons,
      Nat.succ_mul,Nat.add_comm]

theorem range_double (n : Nat) (f : Nat → List α) :
    (List.range (2 * n)).flatMap f = (List.range n).flatMap fun i => f (2 * i) ++ f (2 * i + 1) := by
  induction n with
  | zero => rfl
  | succ n ih =>
    rw [show 2 * (n + 1) = 2 * n + 1 + 1 by omega,List.range_succ,List.range_succ,List.range_succ]
    simp only [List.flatMap_append,ih]
    simp

theorem pixels_pairs (w h : Nat) (f : Nat → Nat → α) :
    pixels (2 * w) h f = (List.range h).flatMap fun r => (List.range w).flatMap fun c =>
      [f r (2 * c),f r (2 * c + 1)] := by
  have line : ∀ r, (List.range (2 * w)).map (f r) = (List.range w).flatMap fun c =>
      [f r (2 * c),f r (2 * c + 1)] := by
    intro r
    rw [List.map_eq_flatMap,range_double]
    rfl
  simp only [pixels,line]

/-- The places row by row are those of the block. -/
theorem pixels_places (w h : Nat) (f : Nat → α) :
    (pixels w h fun r c => f (r * w + c)) = (List.range (w * h)).map f := by
  induction h with
  | zero => rfl
  | succ h ih =>
    rw [pixels] at ih
    rw [pixels,List.range_succ,List.flatMap_append,ih,Nat.mul_succ,List.range_add,List.map_append,List.map_map]
    simp [Nat.mul_comm,Function.comp_def]

theorem pixels_map (w h : Nat) (f : Nat → Nat → α) (g : α → β) :
    (pixels w h f).map g = pixels w h fun r c => g (f r c) := by
  simp [pixels,List.map_flatMap,Function.comp_def]

/-- Either order meets every place once. -/
theorem squares_perm (w h : Nat) (f : Nat → Nat → α) : (squares w h f).Perm (pixels (2 * w) (2 * h) f) := by
  rw [pixels_pairs,range_double]
  apply List.Perm.flatMap_left
  intro r _
  refine List.Perm.trans (List.Perm.flatMap_left _ fun c _ => ?_) (List.flatMap_append_perm _ _ _).symm
  exact List.Perm.cons _ (List.Perm.swap _ _ _)

end Lib
