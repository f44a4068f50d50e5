import Mathlib.Data.List.Induction

/-! Runs of a step function that may have no result: the empty run, one step more, and the
rule that an invariant of every step is an invariant of every run. -/
namespace Lib

/-- The last binding of a computation. -/
theorem bind_some {x : Option α} {f : α → β} : (x.bind fun a => some (f a)) = some b ↔ ∃ a,
    x = some a ∧ f a = b := by
  simp [Option.bind_eq_some_iff]

/-- A loop with a count. -/
def times (step : σ → Option σ) : Nat → σ → Option σ
  | 0, s => some s
  | n + 1, s => (step s).bind (times step n)

/-- The state after each turn is known. -/
theorem times_eq (step : σ → Option σ) (st : Nat → σ) (n : Nat) (each : ∀ i < n, step (st i) = some (st (i + 1))) :
    times step n (st 0) = some (st n) := by
  induction n generalizing st with
  | zero => rfl
  | succ n ih =>
    have first := each 0 (by omega)
    have later := ih (fun i => st (i + 1)) fun i inside => each (i + 1) (by omega)
    rw [times,first,Option.bind_some]
    exact later

def run (step : Label → σ → Option σ) : List Label → σ → Option σ
  | [], s => some s
  | label :: labels, s => (step label s).bind (run step labels)

theorem run_append (step : Label → σ → Option σ) (front back : List Label) (s : σ) :
    run step (front ++ back) s = (run step front s).bind (run step back) := by
  induction front generalizing s with
  | nil => rfl
  | cons label front ih =>
    simp only [List.cons_append,run,Option.bind_assoc]
    exact congrArg _ (funext ih)

theorem run_concat (step : Label → σ → Option σ) (labels : List Label) (label : Label) (s : σ) :
    run step (labels ++ [label]) s = (run step labels s).bind (step label) := by
  rw [run_append]
  congr
  funext next
  simp [run]

/-- A run that reached `t` by steps that were allowed where they were taken. -/
inductive Reach (step : Label → σ → Option σ) (allowed : Label → σ → Prop) (s : σ) :
    List Label → σ → Prop where
  | start : Reach step allowed s [] s
  | next {labels : List Label} {mid last : σ} : Reach step allowed s labels mid →
      allowed label mid → step label mid = some last → Reach step allowed s (labels ++ [label]) last

theorem Reach.run {step : Label → σ → Option σ} (reach : Reach step allowed s labels t) :
    Lib.run step labels s = some t := by
  induction reach with
  | start => rfl
  | next _ _ taken ih => rw [run_concat,ih,Option.bind_some,taken]

/-- One step more of a run that is known as a whole. -/
theorem Reach.extend {step : Label → σ → Option σ} (reach : Reach step allowed s labels mid)
    (permitted : allowed label mid)
    (taken : Lib.run step (labels ++ [label]) s = some last) : Reach step allowed s (labels ++ [label]) last := by
  rw [run_concat,reach.run,Option.bind_some] at taken
  exact .next reach permitted taken

/-- A run whose steps are allowed anywhere. -/
theorem Reach.of_run {step : Label → σ → Option σ} (allowed' : ∀ label ∈ labels, ∀ s, allowed label s)
    (taken : Lib.run step labels s = some t) : Reach step allowed s labels t := by
  induction labels using List.reverseRecOn generalizing t with
  | nil => exact (Option.some.inj taken) ▸ .start
  | append_singleton labels label ih =>
    rw [run_concat] at taken
    obtain ⟨mid,early,last⟩ := Option.bind_eq_some_iff.mp taken
    exact .next (ih (fun label member => allowed' label (List.mem_append_left _ member)) early)
      (allowed' label (by simp) mid) last

/-- A run that goes on while a test of the steps succeeds. -/
def runChecked (step : Label → σ → Option σ) (check : Label → σ → Bool) : List Label → σ → Option σ
  | [], s => some s
  | label :: labels, s => if check label s then (step label s).bind (runChecked step check labels) else none

theorem runChecked_append (step : Label → σ → Option σ) (check : Label → σ → Bool)
    (front back : List Label) (s : σ) :
    runChecked step check (front ++ back) s = (runChecked step check front s).bind (runChecked step check back) := by
  induction front generalizing s with
  | nil => rfl
  | cons label front ih =>
    simp only [List.cons_append,runChecked]
    split
    · rw [Option.bind_assoc]
      exact congrArg _ (funext ih)
    · rfl

theorem Reach.of_checked {step : Label → σ → Option σ} {check : Label → σ → Bool}
    (sound : ∀ label ∈ labels, ∀ s, check label s = true → allowed label s)
    (taken : runChecked step check labels s = some t) : Reach step allowed s labels t := by
  induction labels using List.reverseRecOn generalizing t with
  | nil => exact (Option.some.inj taken) ▸ .start
  | append_singleton labels label ih =>
    rw [runChecked_append] at taken
    obtain ⟨mid,early,last⟩ := Option.bind_eq_some_iff.mp taken
    have before := ih (fun label member => sound label (List.mem_append_left _ member)) early
    simp only [runChecked] at last
    split at last
    · next passed =>
      obtain ⟨t',step,rfl⟩ := bind_some.mp last
      exact .next before (sound label (by simp) mid passed) step
    · exact nomatch last

theorem Reach.mono {step : Label → σ → Option σ} (reach : Reach step allowed s labels t)
    (weaker : ∀ label u, allowed label u → allowed' label u) : Reach step allowed' s labels t := by
  induction reach with
  | start => exact .start
  | next _ permitted taken ih => exact .next ih (weaker _ _ permitted) taken

/-- The last step of a run. -/
theorem Reach.last {step : Label → σ → Option σ} (reach : Reach step allowed s (labels ++ [label]) t) :
    ∃ mid, Reach step allowed s labels mid ∧ allowed label mid ∧ step label mid = some t := by
  generalize all : labels ++ [label] = whole at reach
  cases reach with
  | start => simp at all
  | next early permitted taken =>
    obtain ⟨rfl,same⟩ := List.append_inj' all rfl
    obtain rfl := (List.cons.inj same).1
    exact ⟨_,early,permitted,taken⟩

/-- Any step of a run, with what came before and after it. -/
theorem Reach.parted {step : Label → σ → Option σ} (reach : Reach step allowed s (front ++ label :: back) t) :
    ∃ mid next, Reach step allowed s front mid ∧ allowed label mid ∧ step label mid = some next ∧
      Reach step allowed next back t := by
  induction back using List.reverseRecOn generalizing t with
  | nil =>
    obtain ⟨mid,early,permitted,taken⟩ := reach.last
    exact ⟨mid,t,early,permitted,taken,.start⟩
  | append_singleton back final ih =>
    rw [show front ++ label :: (back ++ [final]) = (front ++ label :: back) ++ [final] by simp] at reach
    obtain ⟨t',early,permitted,taken⟩ := reach.last
    obtain ⟨mid,next,before,here,step,after⟩ := ih early
    exact ⟨mid,next,before,here,step,.next after permitted taken⟩

theorem Reach.invariant {step : Label → σ → Option σ} (reach : Reach step allowed s labels t)
    (inv : σ → Prop) (initial : inv s)
    (preserved : ∀ label u v, inv u → allowed label u → step label u = some v → inv v) : inv t := by
  induction reach with
  | start => exact initial
  | next _ permitted taken ih => exact preserved _ _ _ ih permitted taken

end Lib
