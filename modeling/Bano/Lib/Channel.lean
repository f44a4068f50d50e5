import Mathlib.Data.List.Basic

/-! What is in flight on a channel, the oldest first. A channel may lose what it holds, copy it, and yield it in any
order; one that makes no copies and yields the oldest keeps the order in which things were sent. -/
namespace Lib

/-- One of the things in flight is received. -/
def receive (flight : List α) (i : Nat) : Option (α × List α) := flight[i]?.map fun a => (a,flight.eraseIdx i)

def lose (flight : List α) (i : Nat) : List α := flight.eraseIdx i

def copy (flight : List α) (i : Nat) : List α := flight ++ flight[i]?.toList

theorem mem_lose {flight : List α} (member : a ∈ lose flight i) : a ∈ flight := List.mem_of_mem_eraseIdx member

theorem mem_copy {flight : List α} (member : a ∈ copy flight i) : a ∈ flight := by
  rcases List.mem_append.mp member with early | late
  · exact early
  · exact List.mem_of_getElem? (Option.mem_toList.mp late)

theorem mem_receive {flight : List α} (received : receive flight i = some (a,rest)) :
    a ∈ flight ∧ ∀ b ∈ rest, b ∈ flight := by
  obtain ⟨a',here,same⟩ := Option.map_eq_some_iff.mp received
  obtain ⟨rfl,rfl⟩ := Prod.mk.inj same
  exact ⟨List.mem_of_getElem? here,fun b member => List.mem_of_mem_eraseIdx member⟩

theorem receive_head {flight : List α} (received : receive flight 0 = some (a,rest)) : flight = a :: rest := by
  cases flight with
  | nil => exact nomatch received
  | cons b flight =>
    obtain ⟨rfl,rfl⟩ := Prod.mk.inj (Option.some.inj received)
    rfl

/-- What was received, and then what is in flight, is in the order of what was sent. -/
def InOrder (sent got flight : List α) : Prop := (got ++ flight).Sublist sent

theorem InOrder.send {got : List α} (order : InOrder sent got flight) (new : List α) :
    InOrder (sent ++ new) got (flight ++ new) := by
  rw [InOrder,← List.append_assoc]
  exact order.append (List.Sublist.refl new)

theorem InOrder.receive {rest : List α} (order : InOrder sent got (a :: rest)) : InOrder sent (got ++ [a]) rest := by
  rw [InOrder,List.append_assoc]
  exact order

theorem InOrder.fewer {rest : List α} (order : InOrder sent got flight) (sub : rest.Sublist flight) :
    InOrder sent got rest :=
  ((List.Sublist.refl got).append sub).trans order

/-- What was never sent after `a` is not received after `a`. -/
theorem InOrder.never {front : List α} (order : InOrder sent (front ++ a :: back) flight)
    (never : ¬[a,b].Sublist sent) : b ∉ back := by
  intro late
  have pair : [a,b].Sublist (a :: back) := (List.singleton_sublist.mpr late).cons_cons a
  have received : [a,b].Sublist (front ++ a :: back ++ flight) :=
    (pair.trans (List.sublist_append_right _ _)).trans (List.sublist_append_left _ _)
  exact never (received.trans order)

theorem getLast?_of_all {v : α} (same : ∀ x ∈ back, x = v) : (front ++ v :: back).getLast? = some v := by
  rw [List.getLast?_append]
  cases last : (v :: back).getLast? with
  | none => simp at last
  | some x =>
    rcases List.mem_cons.mp (List.mem_of_getLast? last) with rfl | member
    · rfl
    · rw [same x member]
      rfl

end Lib
