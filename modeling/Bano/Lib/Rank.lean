import Bano.Lib.Simulation
import Mathlib.Algebra.GroupWithZero.Nat

/-! How far a run is from a goal: the steps that work towards it lower a rank. -/
namespace Lib

variable {σ Label : Type} {step : Label → σ → Option σ} {allowed : Label → σ → Prop} {s t : σ}
  {labels : List Label}

/-- Until the goal, each step of `own` lowers the rank, and only a step of `lifts` raises it, by at most `c`. -/
theorem Reach.ranked (reach : Reach step allowed s labels t) (inv goal : σ → Prop)
    (own lifts : Label → Bool) (c : Nat)
    (rank : σ → Nat) (initial : inv s) (stable : ∀ label u v, goal u → step label u = some v → goal v)
    (lowers : ∀ label u v, inv u → allowed label u → step label u = some v →
      goal v ∨ inv v ∧ rank v + (if own label then 1 else 0) ≤ rank u + (if lifts label then c else 0)) :
    goal t ∨ inv t ∧ rank t + labels.countP own ≤ rank s + c * labels.countP lifts := by
  induction reach with
  | start => exact .inr ⟨initial,Nat.le_refl _⟩
  | next _ permitted taken ih =>
    rcases ih with reached | ⟨kept,bound⟩
    · exact .inl (stable _ _ _ reached taken)
    rcases lowers _ _ _ kept permitted taken with reached | ⟨kept',lower⟩
    · exact .inl reached
    · refine .inr ⟨kept',?_⟩
      rw [List.countP_append,List.countP_singleton,List.countP_append,List.countP_singleton,Nat.mul_add,
        mul_ite,Nat.mul_one,
        Nat.mul_zero]
      omega

end Lib
