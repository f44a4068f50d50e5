import Bano.Lib.Outcome

/-! Programs that change a state and may go wrong, with rules for what they yield: a program
yields what is said if it returns, without a fault, in a state as said. -/
namespace Lib

variable {σ ω α β : Type}

/-- From `s`, the program returns, and `post` holds of its result and of the state that it leaves. -/
def Yields (p : StateT σ Outcome α) (s : σ) (post : α → σ → Prop) : Prop :=
  ∃ a s', p s = .done (a,s') ∧ post a s'

namespace Yields

theorem pure {post : α → σ → Prop} (holds : post a s) : Yields (Pure.pure a) s post := ⟨a,s,rfl,holds⟩

theorem bind {p : StateT σ Outcome α} {q : α → StateT σ Outcome β} {mid : α → σ → Prop}
    {post : β → σ → Prop}
    (first : Yields p s mid) (rest : ∀ a t, mid a t → Yields (q a) t post) : Yields (p >>= q) s post := by
  obtain ⟨a,t,run,holds⟩ := first
  obtain ⟨b,u,run',holds'⟩ := rest a t holds
  refine ⟨b,u,?_,holds'⟩
  show (p s >>= fun r => q r.1 r.2) = _
  rw [run,Outcome.bind_done]
  exact run'

theorem mono {p : StateT σ Outcome α} {post weaker : α → σ → Prop} (yields : Yields p s post)
    (holds : ∀ a t, post a t → weaker a t) : Yields p s weaker := by
  obtain ⟨a,t,run,here⟩ := yields
  exact ⟨a,t,run,holds a t here⟩

theorem ite {c : Prop} [Decidable c] {p q : StateT σ Outcome α} {post : α → σ → Prop} (yes : c → Yields p s post)
    (no : ¬c → Yields q s post) : Yields (if c then p else q) s post := by
  split
  · exact yes ‹_›
  · exact no ‹_›

end Yields

/-- A function of the state that may have no result. -/
def attempt (f : σ → Option (α × σ)) : StateT σ Outcome α := fun s => .ofOption (f s)

theorem Yields.attempt {f : σ → Option (α × σ)} {post : α → σ → Prop} (result : f s = some (a,t))
    (holds : post a t) :
    Yields (Lib.attempt f) s post := ⟨a,t,by rw [Lib.attempt,result,Outcome.ofOption_some],holds⟩

/-- A change of the state. -/
def alter (f : σ → σ) : StateT σ Outcome Unit := fun s => .done ((),f s)

theorem Yields.alter {f : σ → σ} {post : Unit → σ → Prop} (holds : post () (f s)) : Yields (Lib.alter f) s post :=
  ⟨(),f s,rfl,holds⟩

end Lib
