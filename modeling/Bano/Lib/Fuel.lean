import Bano.Lib.Simulation

/-! Programs with a bound on the turns of their loops. What such a program comes to is its outcome at every
bound that is large enough; a loop comes to a result when each turn does and lowers a measure. -/
namespace Lib

variable {α β σ : Type}

def Comes (p : Nat → Outcome α) (post : Outcome α → Prop) : Prop := ∃ o, post o ∧ ∃ least, ∀ fuel,
    least ≤ fuel → p fuel = o

/-- The outcome is a result, as said. -/
def Returns (post : α → Prop) (o : Outcome α) : Prop := ∃ a, o = .done a ∧ post a

/-- The same outcome, unless the program has not ended. -/
def Below (o o' : Outcome α) : Prop := o = .running ∨ o = o'

theorem Below.rfl : Below o o := .inr (.refl _)

theorem Below.bind {f g : α → Outcome β} (first : Below o o') (rest : ∀ a, Below (f a) (g a)) :
    Below (o >>= f) (o' >>= g) := by
  rcases first with rfl | rfl
  · exact .inl (.refl _)
  · cases o with
    | running => exact .inl (.refl _)
    | fault => exact .rfl
    | done a => exact rest a

theorem Below.ite {c : Prop} [Decidable c] (yes : Below p p') (no : Below q q') :
    Below (if c then p else q) (if c then p' else q') := by
  split
  · exact yes
  · exact no

theorem Below.done (below : Below o o') (returned : o = .done a) : o' = .done a := by
  rcases below with stuck | same
  · exact absurd (stuck.symm.trans returned) nofun
  · exact same.symm.trans returned

/-- A result stays if outcomes only end as the bound grows. -/
theorem Comes.grown {p : Nat → Outcome α} {post : α → Prop} (grows : ∀ {fuel fuel'}, fuel ≤ fuel' →
    Below (p fuel) (p fuel'))
    (returned : p fuel = .done a) (holds : post a) : Comes p (Returns post) :=
  ⟨.done a,⟨a,rfl,holds⟩,fuel,fun _ enough => (grows enough).done returned⟩

theorem Comes.const {post : Outcome α → Prop} (holds : post o) : Comes (fun _ => o) post := ⟨o,holds,0,fun _ _ => rfl⟩

theorem Comes.mono {p : Nat → Outcome α} {post weaker : Outcome α → Prop} (comes : Comes p post)
    (holds : ∀ o, post o → weaker o) : Comes p weaker := by
  obtain ⟨o,here,least,same⟩ := comes
  exact ⟨o,holds o here,least,same⟩

/-- What holds of the outcome at any bound. -/
theorem Comes.every {p : Nat → Outcome α} {post also : Outcome α → Prop} (comes : Comes p post)
    (each : ∀ fuel, also (p fuel)) :
    Comes p fun o => post o ∧ also o := by
  obtain ⟨o,here,least,same⟩ := comes
  exact ⟨o,⟨here,same least (Nat.le_refl _) ▸ each least⟩,least,same⟩

theorem Comes.bind {p : Nat → Outcome α} {q : α → Nat → Outcome β} {mid : Outcome α → Prop}
    {post : Outcome β → Prop}
    (first : Comes p mid) (running : mid .running → post .running) (fault : mid .fault → post .fault)
    (rest : ∀ a, mid (.done a) → Comes (q a) post) : Comes (fun fuel => p fuel >>= fun a => q a fuel) post := by
  obtain ⟨o,here,least,same⟩ := first
  cases o with
  | running =>
    refine ⟨.running,running here,least,fun fuel enough => ?_⟩
    simp only [same fuel enough,Outcome.bind_running]
  | fault =>
    refine ⟨.fault,fault here,least,fun fuel enough => ?_⟩
    simp only [same fuel enough,Outcome.bind_fault]
  | done a =>
    obtain ⟨o',holds,least',same'⟩ := rest a here
    refine ⟨o',holds,max least least',fun fuel enough => ?_⟩
    simp only [same fuel (by omega),Outcome.bind_done]
    exact same' fuel (by omega)

theorem Comes.next {p : Nat → Outcome α} {q : α → Nat → Outcome β} {mid : α → Prop} {post : Outcome β → Prop}
    (first : Comes p (Returns mid)) (rest : ∀ a, mid a → Comes (q a) post) :
    Comes (fun fuel => p fuel >>= fun a => q a fuel) post := by
  refine first.bind ?_ ?_ ?_
  · rintro ⟨_,stuck,_⟩
    cases stuck
  · rintro ⟨_,stuck,_⟩
    cases stuck
  · rintro a ⟨_,same,holds⟩
    cases same
    exact rest a holds

theorem Comes.read {q : α → Nat → Outcome β} {post : Outcome β → Prop} (found : x = some a)
    (rest : Comes (q a) post) :
    Comes (fun fuel => Outcome.ofOption x >>= fun a => q a fuel) post := by
  subst found
  exact rest

theorem Comes.walk {next : σ → Nat → Option (Option Nat)} {fn : Nat → Nat → σ → Outcome σ}
    (inv : Option Nat → σ → Prop)
    (measure : Option Nat → σ → Nat)
    (call : ∀ pos s, inv (some pos) s → ∃ after, next s pos = some after ∧
      Comes (fun fuel => fn fuel pos s) (Returns fun s' => inv after s' ∧ measure after s' < measure (some pos) s))
    (initial : inv pos s) : Comes (fun fuel => Lib.walk next (fn fuel) fuel pos s) (Returns (inv none)) := by
  suffices bounded : ∃ s' least, inv none s' ∧ ∀ fuel count, least ≤ fuel → least ≤ count →
      Lib.walk next (fn fuel) count pos s = .done s' by
    obtain ⟨s',least,holds,returns⟩ := bounded
    exact ⟨.done s',⟨s',rfl,holds⟩,least,fun fuel enough => returns fuel fuel enough enough⟩
  -- the number of turns that are left and the bound within a turn vary apart
  generalize size : measure pos s = n
  induction n using Nat.strongRecOn generalizing pos s with
  | ind n ih =>
    cases pos with
    | none =>
      refine ⟨s,1,initial,fun fuel count _ enough => ?_⟩
      obtain ⟨k,rfl⟩ := Nat.exists_eq_add_of_le' enough
      rfl
    | some pos =>
      obtain ⟨after,read,_,⟨mid,rfl,kept,lower⟩,least,called⟩ := call pos s initial
      obtain ⟨s',least',holds,returns⟩ := ih _ (size ▸ lower) kept rfl
      refine ⟨s',max least (least' + 1),holds,fun fuel count enough turns => ?_⟩
      obtain ⟨k,rfl⟩ := Nat.exists_eq_add_of_le' (show 1 ≤ count by omega)
      have turn : walkTurn next (fn fuel) (some pos,s) = .done (.next (after,mid)) := by
        simp [walkTurn,read,called fuel (by omega)]
      exact (loop_next turn k).trans (returns fuel k (by omega) (by omega))

end Lib
