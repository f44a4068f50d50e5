import Mathlib.Logic.Relation

/-! A queue that is served at its head, and what was served may enter again at its end. Whatever is entered and
served, the entries are served for the first time in the order in which they first entered. -/
namespace Lib

/-- What entered for the first time, what was served, and what waits. -/
structure Queue (α : Type) where
  entered : List α
  served : List α
  waiting : List α

namespace Queue

variable {α : Type}

def empty : Queue α := ⟨[],[],[]⟩

inductive Step : Queue α → Queue α → Prop where
  | enter (q : Queue α) (a : α) : a ∉ q.entered → Step q ⟨q.entered ++ [a],q.served,q.waiting ++ [a]⟩
  | serve (entered served : List α) (a : α) (rest : List α) :
      Step ⟨entered,served,a :: rest⟩ ⟨entered,served ++ [a],rest⟩
  | again (q : Queue α) (a : α) : a ∈ q.served → Step q ⟨q.entered,q.served,q.waiting ++ [a]⟩

def Steps : Queue α → Queue α → Prop := Relation.ReflTransGen Step

/-- All that is served, in its order, as far as it is known. -/
def line (q : Queue α) : List α := q.served ++ q.waiting

theorem Step.line {q q' : Queue α} (step : Step q q') : q.line <+: q'.line := by
  cases step with
  | enter _ a new => exact ⟨[a],by simp [Queue.line]⟩
  | serve entered served a rest => exact ⟨[],by simp [Queue.line]⟩
  | again _ a known => exact ⟨[a],by simp [Queue.line]⟩

/-- What waits is served before anything that enters later. -/
theorem Steps.line {q q' : Queue α} (steps : Steps q q') : q.line <+: q'.line := by
  induction steps with
  | refl => exact List.prefix_rfl
  | tail _ step ih => exact ih.trans step.line

section
variable [DecidableEq α]

/-- The line, each entry where it first stands, is what entered. -/
def Ordered (q : Queue α) : Prop := q.line.eraseDups = q.entered

theorem Ordered.mem {q : Queue α} (ordered : Ordered q) : a ∈ q.line ↔ a ∈ q.entered := by
  rw [← ordered,List.mem_eraseDups]

theorem Ordered.step {q q' : Queue α} (ordered : Ordered q) (step : Step q q') : Ordered q' := by
  have same : q.line.eraseDups = q.entered := ordered
  cases step with
  | enter _ a new =>
    have unknown : a ∉ q.line := fun known => new (ordered.mem.mp known)
    show (q.served ++ (q.waiting ++ [a])).eraseDups = q.entered ++ [a]
    rw [← List.append_assoc,List.eraseDups_append]
    change q.line.eraseDups ++ ([a].removeAll q.line).eraseDups = _
    simp [same,List.removeAll,unknown,List.eraseDups_cons]
  | serve entered served a rest =>
    show (served ++ [a] ++ rest).eraseDups = entered
    rw [List.append_assoc]
    exact same
  | again _ a known =>
    have known : a ∈ q.line := List.mem_append_left _ known
    show (q.served ++ (q.waiting ++ [a])).eraseDups = q.entered
    rw [← List.append_assoc,List.eraseDups_append]
    change q.line.eraseDups ++ ([a].removeAll q.line).eraseDups = _
    simp [same,List.removeAll,known]

theorem Ordered.steps {q q' : Queue α} (ordered : Ordered q) (steps : Steps q q') : Ordered q' := by
  induction steps with
  | refl => exact ordered
  | tail _ step ih => exact ih.step step

end

theorem ordered_empty [DecidableEq α] : Ordered (empty : Queue α) := rfl

/-- Several enter one after the other. -/
theorem Steps.enter (entered served waiting : List α) {new : List α} (apart : new.Nodup)
    (unknown : ∀ a ∈ new, a ∉ entered) :
    Steps ⟨entered,served,waiting⟩ ⟨entered ++ new,served,waiting ++ new⟩ := by
  induction new generalizing entered waiting with
  | nil =>
    rw [List.append_nil,List.append_nil]
    exact .refl
  | cons a new ih =>
    obtain ⟨once,apart⟩ := List.nodup_cons.mp apart
    have first : Step ⟨entered,served,waiting⟩ ⟨entered ++ [a],served,waiting ++ [a]⟩ :=
      .enter ⟨entered,served,waiting⟩ a (unknown a List.mem_cons_self)
    have rest := ih (entered ++ [a]) (waiting ++ [a]) apart fun b member => by
      have other : b ≠ a := fun same => once (same ▸ member)
      simp [unknown b (List.mem_cons_of_mem _ member),other]
    rw [List.append_assoc,List.append_assoc] at rest
    exact .head first rest

end Queue

end Lib
