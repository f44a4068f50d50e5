import Bano.Lib.Run
import Bano.Lib.Turns

/-! Programs that do what a step function does. What a program makes of a state is told by an outcome; the steps that
lead there are those of a run, and a program goes wrong only where a run comes to a state that is broken. -/
namespace Lib

theorem Reach.trans {step : Label → σ → Option σ} (one : Reach step allowed s labels t)
    (other : Reach step allowed t labels' u) :
    Reach step allowed s (labels ++ labels') u := by
  induction other with
  | start => rwa [List.append_nil]
  | next _ permitted taken ih =>
    rw [← List.append_assoc]
    exact .next ih permitted taken

/-- A traversal that reads the next item before it calls `fn` on one. -/
def walkTurn (next : σ → Nat → Option (Option Nat)) (fn : Nat → σ → Outcome σ) :
    Option Nat × σ → Outcome (Turn (Option Nat × σ) σ)
  | (none,s) => .done (.stop s)
  | (some pos,s) => do
    let after ← .ofOption (next s pos)
    let s ← fn pos s
    .done (.next (after,s))

def walk (next : σ → Nat → Option (Option Nat)) (fn : Nat → σ → Outcome σ) (fuel : Nat) (pos : Option Nat)
    (s : σ) : Outcome σ :=
  loop (walkTurn next fn) fuel (pos,s)

section

variable {Label τ α β σ : Type} {act : Label → τ → Option τ} {allowed : Label → τ → Prop}
  {broken : τ → Prop}

/-- From `t`, the outcome is what a run of allowed steps comes to. -/
def Simulated (act : Label → τ → Option τ) (allowed : Label → τ → Prop) (broken : τ → Prop) (t : τ)
    (post : α → τ → Prop) :
    Outcome α → Prop
  | .running => True
  | .fault => ∃ labels t', Reach act allowed t labels t' ∧ broken t'
  | .done a => ∃ labels t', Reach act allowed t labels t' ∧ post a t'

theorem Simulated.done {post : α → τ → Prop} (holds : post a t) : Simulated act allowed broken t post (.done a) :=
  ⟨[],t,.start,holds⟩

theorem Simulated.mono {post weaker : α → τ → Prop} {o : Outcome α} (sim : Simulated act allowed broken t post o)
    (holds : ∀ a t', post a t' → weaker a t') : Simulated act allowed broken t weaker o := by
  cases o with
  | running => trivial
  | fault => exact sim
  | done a =>
    obtain ⟨labels,t',reach,post⟩ := sim
    exact ⟨labels,t',reach,holds a t' post⟩

/-- What follows a run of allowed steps. -/
theorem Simulated.after {post : α → τ → Prop} {o : Outcome α} (reach : Reach act allowed t labels t')
    (sim : Simulated act allowed broken t' post o) : Simulated act allowed broken t post o := by
  cases o with
  | running => trivial
  | fault | done a =>
    obtain ⟨labels',t'',later,holds⟩ := sim
    exact ⟨labels ++ labels',t'',reach.trans later,holds⟩

theorem Simulated.bind {mid : α → τ → Prop} {post : β → τ → Prop} {o : Outcome α} {f : α → Outcome β}
    (first : Simulated act allowed broken t mid o)
    (rest : ∀ a t', mid a t' → Simulated act allowed broken t' post (f a)) :
    Simulated act allowed broken t post (o >>= f) := by
  cases o with
  | running => trivial
  | fault => exact first
  | done a =>
    obtain ⟨labels,t',reach,holds⟩ := first
    exact (rest a t' holds).after reach

/-- A value that is missing in broken states only. -/
theorem Simulated.read {post : β → τ → Prop} {x : Option α} {f : α → Outcome β} (missing : x = none → broken t)
    (rest : ∀ a, x = some a → Simulated act allowed broken t post (f a)) :
    Simulated act allowed broken t post (Outcome.ofOption x >>= f) := by
  cases x with
  | none => exact ⟨[],t,.start,missing rfl⟩
  | some a => exact rest a rfl

/-- What the program does is a step. -/
theorem Simulated.step {post : β → τ → Prop} {x : Option α} {f : α → Outcome β} {g : α → τ}
    (permitted : allowed label t)
    (same : act label t = x.map g) (stuck : act label t = none → broken t)
    (rest : ∀ a, x = some a → Simulated act allowed broken (g a) post (f a)) :
    Simulated act allowed broken t post (Outcome.ofOption x >>= f) := by
  cases x with
  | none => exact ⟨[],t,.start,stuck same⟩
  | some a => exact (rest a rfl).after (.next .start permitted same)

/-- What a turn comes to. -/
def TurnPost (next : σ → τ → Prop) (post : α → τ → Prop) : Turn σ α → τ → Prop
  | .next s, t => next s t
  | .stop a, t => post a t

/-- A loop whose turns do what some steps do. -/
theorem Simulated.loop {turn : σ → Outcome (Turn σ α)} {post : α → τ → Prop} (sim : σ → τ → Prop)
    (turns : ∀ s t, sim s t → Simulated act allowed broken t (TurnPost sim post) (turn s))
    (initial : sim s t) (fuel : Nat) :
    Simulated act allowed broken t post (Lib.loop turn fuel s) := by
  induction fuel generalizing s t with
  | zero => trivial
  | succ fuel ih =>
    apply (turns s t initial).bind
    intro r t' holds
    cases r with
    | next s' => exact ih holds
    | stop a => exact .done holds

theorem Simulated.walk {next : σ → Nat → Option (Option Nat)} {fn : Nat → σ → Outcome σ}
    {post : σ → τ → Prop}
    (sim : Option Nat → σ → τ → Prop) (ended : ∀ s t, sim none s t → post s t)
    (found : ∀ pos s t, sim (some pos) s t →
      next s pos = none → broken t)
    (call : ∀ pos s t after, sim (some pos) s t → next s pos = some after →
      Simulated act allowed broken t (fun s' t' => sim after s' t') (fn pos s))
    (initial : sim pos s t) (fuel : Nat) : Simulated act allowed broken t post (Lib.walk next fn fuel pos s) := by
  refine Simulated.loop (fun ps t => sim ps.1 ps.2 t) (fun ps t here => ?_) initial fuel
  obtain ⟨pos,s⟩ := ps
  cases pos with
  | none => exact .done (ended s t here)
  | some pos =>
    apply Simulated.read (found pos s t here)
    intro after read
    exact (call pos s t after here read).bind fun s' t' holds => .done holds

end

end Lib
