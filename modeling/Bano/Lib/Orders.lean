import Mathlib.Data.List.Perm.Basic

/-! Writes to a state that are made in some order. Two writes that do
not commute in any state show their order in the end. -/
namespace Lib

variable {τ σ : Type}

/-- The writes, one after the other. -/
def writeAll (write : τ → σ → σ) (ts : List τ) (x : σ) : σ := ts.foldl (fun x t => write t x) x

@[simp] theorem writeAll_nil (write : τ → σ → σ) (x : σ) : writeAll write [] x = x := rfl

@[simp] theorem writeAll_cons (write : τ → σ → σ) (t : τ) (ts : List τ) (x : σ) :
    writeAll write (t :: ts) x = writeAll write ts (write t x) := rfl

@[simp] theorem writeAll_append (write : τ → σ → σ) (ts us : List τ) (x : σ) :
    writeAll write (ts ++ us) x = writeAll write us (writeAll write ts x) := List.foldl_append

end Lib
