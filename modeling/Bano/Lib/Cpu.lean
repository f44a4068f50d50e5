import Mathlib.Logic.Function.Basic

/-! A CPU with maskable interrupts: a flag and a mask bit for each vector, a global bit that takes
effect one instruction after it is set, and a sleep that any served interrupt ends. -/
namespace Lib

structure Cpu (V : Type) where
  enabled : Bool
  shadow : Bool
  sleepEnabled : Bool
  asleep : Bool
  raised : V → Bool
  unmasked : V → Bool

namespace Cpu

/-- An interrupt waits to be served. -/
def Pending (c : Cpu V) : Prop := ∃ v, c.raised v = true ∧ c.unmasked v = true

/-- No interrupt can be served now. -/
def Deaf (c : Cpu V) : Prop := c.enabled = false ∨ c.shadow = true

/-- Any instruction but those below. -/
def tick (c : Cpu V) : Cpu V := { c with shadow := false }

def cli (c : Cpu V) : Cpu V := { c with enabled := false, shadow := false }

def sei (c : Cpu V) : Cpu V := { c with enabled := true, shadow := true }

def sleep (c : Cpu V) : Cpu V := { c with shadow := false, asleep := c.sleepEnabled }

variable [DecidableEq V]

def raise (c : Cpu V) (v : V) : Cpu V := { c with raised := Function.update c.raised v true }

def unmask (c : Cpu V) (v : V) : Cpu V := { c with unmasked := Function.update c.unmasked v true }

/-- The handler runs as a whole, since interrupts are disabled until it returns. -/
def serve (c : Cpu V) (v : V) : Option (Cpu V) :=
  if c.enabled ∧ ¬c.shadow ∧ c.raised v ∧ c.unmasked v then
    some { c with asleep := false, raised := Function.update c.raised v false }
  else none

theorem unmask_unmasked {c : Cpu V} (unmasked : c.unmasked w = true) (v : V) : (c.unmask v).unmasked w = true := by
  by_cases here : w = v
  · subst here
    exact Function.update_self w true c.unmasked
  · exact (Function.update_of_ne here true c.unmasked).trans unmasked

theorem unmask_self (c : Cpu V) (v : V) : (c.unmask v).unmasked v = true := by simp [unmask]

theorem serve_some {c : Cpu V} (served : c.serve v = some c') : ¬c.Deaf ∧ c.raised v = true ∧ c.unmasked v = true ∧
    c' = { c with asleep := false, raised := Function.update c.raised v false } := by
  unfold serve at served
  split at served
  · next able => exact ⟨by simp [Deaf,able.1,able.2.1],able.2.2.1,able.2.2.2,(Option.some.inj served).symm⟩
  · exact nomatch served

/-- What waits is served as soon as the CPU listens. -/
theorem Pending.served {c : Cpu V} (pending : c.Pending) (listens : ¬c.Deaf) :
    ∃ v c', c.serve v = some c' ∧ c'.asleep = false := by
  obtain ⟨v,raised,unmasked⟩ := pending
  have able : c.enabled = true ∧ c.shadow = false := by simpa [Deaf] using listens
  exact ⟨v,_,if_pos ⟨able.1,by simp [able.2],raised,unmasked⟩,rfl⟩

theorem Pending.raise {c : Cpu V} (pending : c.Pending) (v : V) : (c.raise v).Pending := by
  obtain ⟨w,raised,unmasked⟩ := pending
  refine ⟨w,?_,unmasked⟩
  by_cases here : w = v
  · subst here
    exact Function.update_self w true c.raised
  · exact (Function.update_of_ne here true c.raised).trans raised

theorem Pending.unmask {c : Cpu V} (pending : c.Pending) (v : V) : (c.unmask v).Pending := by
  obtain ⟨w,raised,unmasked⟩ := pending
  exact ⟨w,raised,unmask_unmasked unmasked v⟩

theorem raise_pending {c : Cpu V} (unmasked : c.unmasked v = true) : (c.raise v).Pending := by
  refine ⟨v,?_,unmasked⟩
  exact Function.update_self v true c.raised

end Cpu
end Lib
