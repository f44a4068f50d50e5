import Bano.Lib.Bytes

/-! Several writes to a block, one after the other. Where no two of them overlap, each of them is found in the end. -/
namespace Lib

def storeAll : List (Nat × List α) → List α → Option (List α)
  | [], block => some block
  | (off,values) :: ws, block => (store block off values).bind (storeAll ws)

/-- The writes have no byte in common. -/
def Separate (w w' : Nat × List α) : Prop := w.1 + w.2.length ≤ w'.1 ∨ w'.1 + w'.2.length ≤ w.1

variable {ws : List (Nat × List α)} {block : List α}

theorem store_getElem? (stored : store block off values = some block') (i : Nat) :
    block'[i]? = if off ≤ i ∧ i < off + values.length then values[i - off]? else block[i]? := by
  have room := store_room stored
  rw [store_eq room] at stored
  obtain rfl := Option.some.inj stored
  have front : (block.take off).length = off := by rw [List.length_take]; omega
  by_cases before : i < off
  · rw [if_neg (by omega),List.append_assoc,List.getElem?_append_left (by omega),List.getElem?_take_of_lt before]
  by_cases here : i < off + values.length
  · rw [if_pos ⟨by omega,here⟩,List.append_assoc,List.getElem?_append_right (by omega),
      List.getElem?_append_left (by omega),front]
  · rw [if_neg (by omega),List.getElem?_append_right (by rw [List.length_append]; omega),List.getElem?_drop]
    congr 1
    rw [List.length_append]
    omega

theorem storeAll_length (written : storeAll ws block = some block') : block'.length = block.length := by
  induction ws generalizing block with
  | nil => exact congrArg List.length (Option.some.inj written).symm
  | cons w ws ih =>
    obtain ⟨mid,stored,rest⟩ := Option.bind_eq_some_iff.mp written
    exact (ih rest).trans (store_length stored)

theorem storeAll_some (fits : ∀ w ∈ ws, w.1 + w.2.length ≤ block.length) :
    ∃ block', storeAll ws block = some block' := by
  induction ws generalizing block with
  | nil => exact ⟨block,rfl⟩
  | cons w ws ih =>
    have stored := store_eq (fits w List.mem_cons_self)
    have later : ∀ w' ∈ ws, w'.1 + w'.2.length ≤ (block.take w.1 ++ w.2 ++ block.drop (w.1 + w.2.length)).length := by
      rw [store_length stored]
      exact fun w' member => fits w' (List.mem_cons_of_mem _ member)
    obtain ⟨block',rest⟩ := ih later
    exact ⟨block',by rw [storeAll,stored,Option.bind_some,rest]⟩

/-- What no write covers stays. -/
theorem storeAll_outside (written : storeAll ws block = some block')
    (outside : ∀ w ∈ ws, i < w.1 ∨ w.1 + w.2.length ≤ i) :
    block'[i]? = block[i]? := by
  induction ws generalizing block with
  | nil => rw [Option.some.inj written]
  | cons w ws ih =>
    obtain ⟨mid,stored,rest⟩ := Option.bind_eq_some_iff.mp written
    have here := outside w List.mem_cons_self
    rw [ih rest fun w' member => outside w' (List.mem_cons_of_mem _ member),store_getElem? stored,if_neg (by omega)]

theorem storeAll_inside (written : storeAll ws block = some block') (apart : ws.Pairwise Separate)
    (member : (off,values) ∈ ws)
    (inside : j < values.length) : block'[off + j]? = values[j]? := by
  induction ws generalizing block with
  | nil => exact nomatch member
  | cons w ws ih =>
    obtain ⟨mid,stored,rest⟩ := Option.bind_eq_some_iff.mp written
    obtain ⟨here,later⟩ := List.pairwise_cons.mp apart
    rcases List.mem_cons.mp member with same | after
    · subst same
      have untouched := storeAll_outside (i := off + j) rest fun w' member' => by
        have disjoint : off + values.length ≤ w'.1 ∨ w'.1 + w'.2.length ≤ off := here w' member'
        omega
      have within : off ≤ off + j ∧ off + j < off + values.length := by omega
      rw [untouched,store_getElem? stored,if_pos within,Nat.add_sub_cancel_left]
    · exact ih rest later after

end Lib
