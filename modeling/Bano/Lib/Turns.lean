import Mathlib.Logic.Relation
import Bano.Lib.Outcome

/-! Loops, turn by turn. The bound on the number of turns decides only whether a loop is seen to its end; an
invariant of the turns shows that no turn goes wrong, and a measure that each turn lowers bounds their number. -/
namespace Lib

open Relation

/-- What a turn comes to: the state of the next turn, or the result of the loop. -/
inductive Turn (σ α : Type) where
  | next (s : σ)
  | stop (a : α)

variable {σ α : Type} {turn : σ → Outcome (Turn σ α)} {inv : σ → Prop} {post : α → Prop}

def loop (turn : σ → Outcome (Turn σ α)) : Nat → σ → Outcome α
  | 0, _ => .running
  | fuel + 1, s => do
    match ← turn s with
    | .next s => loop turn fuel s
    | .stop a => .done a

/-- A turn starts in `t` after those that follow one in `s`. -/
def Starts (turn : σ → Outcome (Turn σ α)) : σ → σ → Prop := ReflTransGen fun s t => turn s = .done (.next t)

/-- The turn has a result, which is as said. -/
inductive Ends (next : σ → Prop) (post : α → Prop) : Outcome (Turn σ α) → Prop where
  | next : next t → Ends next post (.done (.next t))
  | stop : post a → Ends next post (.done (.stop a))

theorem Ends.mono {weaker : σ → Prop} {weaker' : α → Prop} (ends : Ends inv post r) (holds : ∀ s, inv s → weaker s)
    (holds' : ∀ a, post a → weaker' a) : Ends weaker weaker' r := by
  cases ends with
  | next kept => exact .next (holds _ kept)
  | stop result => exact .stop (holds' _ result)

/-- The turn after it is the next one. -/
theorem Ends.taken (ends : Ends inv post (turn s)) :
    Ends (fun t => inv t ∧ turn s = .done (.next t)) post (turn s) := by
  generalize turn s = r at ends
  cases ends with
  | next kept => exact .next ⟨kept,rfl⟩
  | stop result => exact .stop result

theorem loop_next (taken : turn s = .done (.next t)) (fuel : Nat) : loop turn (fuel + 1) s = loop turn fuel t := by
  simp [loop,taken]

theorem loop_stop (taken : turn s = .done (.stop a)) (fuel : Nat) : loop turn (fuel + 1) s = .done a := by
  simp [loop,taken]

/-- The turn that ends a loop. -/
theorem loop_last (result : loop turn fuel s = .done a) : ∃ t, Starts turn s t ∧ turn t = .done (.stop a) := by
  induction fuel generalizing s with
  | zero => simp [loop] at result
  | succ fuel ih =>
    cases taken : turn s with
    | running => simp [loop,taken] at result
    | fault => simp [loop,taken] at result
    | done r =>
      cases r with
      | next t =>
        rw [loop_next taken] at result
        obtain ⟨last,starts,stops⟩ := ih result
        exact ⟨last,.head taken starts,stops⟩
      | stop b =>
        rw [loop_stop taken] at result
        exact ⟨s,.refl,(Outcome.done.inj result) ▸ taken⟩

theorem Starts.invariant (starts : Starts turn s t) (inv : σ → Prop) (initial : inv s)
    (step : ∀ s, inv s → Ends inv post (turn s)) : inv t := by
  induction starts with
  | refl => exact initial
  | tail _ taken ih =>
    have ends := step _ ih
    rw [taken] at ends
    cases ends with
    | next kept => exact kept

/-- Whatever the bound, the loop is still running or has a result as said. -/
theorem loop_safe (inv : σ → Prop) (initial : inv s) (step : ∀ s, inv s → Ends inv post (turn s)) (fuel : Nat) :
    loop turn fuel s = .running ∨ ∃ a, loop turn fuel s = .done a ∧ post a := by
  induction fuel generalizing s with
  | zero => exact .inl rfl
  | succ fuel ih =>
    cases taken : turn s with
    | running => exact nomatch taken ▸ step s initial
    | fault => exact nomatch taken ▸ step s initial
    | done result =>
      cases taken ▸ step s initial with
      | next kept =>
        rw [loop_next taken]
        exact ih kept
      | stop result => exact .inr ⟨_,loop_stop taken _,result⟩

/-- A loop whose turns lower a measure returns. -/
theorem loop_returns (inv : σ → Prop) (measure : σ → Nat) (initial : inv s)
    (step : ∀ s, inv s → Ends (fun t => inv t ∧ measure t < measure s) post (turn s)) (enough : measure s < fuel) :
    ∃ a, loop turn fuel s = .done a ∧ post a := by
  induction fuel generalizing s with
  | zero => omega
  | succ fuel ih =>
    cases taken : turn s with
    | running => exact nomatch taken ▸ step s initial
    | fault => exact nomatch taken ▸ step s initial
    | done result =>
      cases taken ▸ step s initial with
      | next kept =>
        rw [loop_next taken]
        exact ih kept.1 (by omega)
      | stop result => exact ⟨_,loop_stop taken _,result⟩

end Lib
