/-! Outcomes of code run with a bounded number of steps: it may still be running, it may have
done something whose effect is undefined, or it has returned. -/
namespace Lib

inductive Outcome (α : Type) where
  | running
  | fault
  | done (value : α)
  deriving DecidableEq

namespace Outcome

def bind : Outcome α → (α → Outcome β) → Outcome β
  | running, _ => running
  | fault, _ => fault
  | done a, f => f a

instance : Monad Outcome where
  pure := done
  bind := bind

/-- A missing value is a fault. -/
def ofOption : Option α → Outcome α
  | none => fault
  | some a => done a

@[simp] theorem bind_running (f : α → Outcome β) : ((running : Outcome α) >>= f) = running := rfl

@[simp] theorem bind_fault (f : α → Outcome β) : ((fault : Outcome α) >>= f) = fault := rfl

@[simp] theorem bind_done (a : α) (f : α → Outcome β) : (done a >>= f) = f a := rfl

@[simp] theorem ofOption_some (a : α) : ofOption (some a) = done a := rfl

end Outcome
end Lib
