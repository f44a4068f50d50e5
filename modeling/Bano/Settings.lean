import Bano.Keyval
import Bano.Lib.Orders

/-! The handlers of pairs as readings and writings: what a pair says is read from the
pair alone, or the pair is refused, and then it is written to the info. -/
namespace Bano

open Lib

/-- A handler that refuses a pair whatever the info is, or writes what it reads of it. -/
structure Settles (fn : π → σ → Int × σ) (read : π → Option τ) (write : τ → σ → σ) : Prop where
  refused : ∀ pair info, read pair = none → (fn pair info).1 ≠ 0
  written : ∀ pair info s, read pair = some s → fn pair info = (0,write s info)

/-- A result is a refusal, or what is written. -/
def Written (write : τ → σ → σ) (info : σ) : Option τ → Int × σ → Prop
  | none, result => result.1 ≠ 0
  | some s, result => result = (0,write s info)

theorem Settles.of_written {fn : π → σ → Int × σ} {read : π → Option τ}
    (written : ∀ pair info, Written write info (read pair) (fn pair info)) : Settles fn read write := by
  constructor
  · intro pair info none
    have refused := written pair info
    rwa [none] at refused
  · intro pair info s some
    have taken := written pair info
    rwa [some] at taken

/-- A branch of a handler is the branch of what it reads. -/
theorem Written.ite {c : Prop} [Decidable c] (yes : Written write info s result)
    (no : Written write info s' result') :
    Written write info (if c then s else s') (if c then result else result') := by
  by_cases taken : c
  · rwa [if_pos taken,if_pos taken]
  · rwa [if_neg taken,if_neg taken]

theorem Written.refused (info' : σ) : Written write info none (-1,info') := by
  show (-1 : Int) ≠ 0
  decide

theorem Written.putUint32 {put : U32 → σ} (same : ∀ x, put x = write (setting x) info) :
    Written write info ((banoStringToUint32 val).map setting) (putUint32 val info' put) := by
  unfold Bano.putUint32
  cases banoStringToUint32 val with
  | none => exact .refused _
  | some x => exact congrArg (Prod.mk 0) (same x)

/-- A flag is set or cleared. -/
def setFlag (on : Bool) (flag flags : U32) : U32 := if on then flags ||| flag else flags &&& ~~~flag

theorem Written.putFlag {put : U32 → σ} (same : ∀ on, put (setFlag on flag flags) = write (setting on) info) :
    Written write info ((banoStringToBool val).map setting) (putFlag val flags flag info' put) := by
  unfold Bano.putFlag
  cases banoStringToBool val with
  | none => exact .refused _
  | some on =>
    cases on with
    | true => exact congrArg (Prod.mk 0) (same true)
    | false => exact congrArg (Prod.mk 0) (same false)

/-- What the pairs of a section come to, if none of them fails. -/
def yields (result : Int × σ) : Option σ := if result.1 = 0 then some result.2 else none

namespace Settles

variable {σ τ : Type} {fn : π → σ → Int × σ} {read : π → Option τ} {write : τ → σ → σ}
  {pairs : List π}

theorem foreachPair_refused (settles : Settles fn read write) (member : pair ∈ pairs)
    (none : read pair = none) (info : σ) :
    yields (banoParserForeachPair fn pairs info) = .none := by
  apply if_neg
  induction pairs generalizing info with
  | nil => exact nomatch member
  | cons pair' pairs ih =>
    rw [banoParserForeachPair]
    dsimp only
    split
    · next failed => exact failed
    · next fine =>
      rcases List.mem_cons.mp member with rfl | later
      · exact absurd fine (not_not.mpr (settles.refused _ info none))
      · exact ih later _

theorem foreachPair_written (settles : Settles fn read write) (taken : ∀ pair ∈ pairs, read pair ≠ none) (info : σ) :
    banoParserForeachPair fn pairs info = (0,writeAll write (pairs.filterMap read) info) := by
  induction pairs generalizing info with
  | nil => rfl
  | cons pair pairs ih =>
    obtain ⟨s,found⟩ := Option.ne_none_iff_exists'.mp (taken pair List.mem_cons_self)
    have rest := ih (fun pair member => taken pair (List.mem_cons_of_mem _ member)) (write s info)
    simp [banoParserForeachPair,settles.written pair info s found,rest,found]

end Settles
end Bano
