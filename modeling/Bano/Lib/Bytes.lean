import Mathlib.Tactic.SplitIfs

/-! Reading and writing a block of memory, and moving it into a larger one. An access that would leave
the block has no result. -/
namespace Lib

def store (block : List α) (off : Nat) (values : List α) : Option (List α) :=
  if off + values.length ≤ block.length then
    some (block.take off ++ values ++ block.drop (off + values.length))
  else none

/-- What is beyond the old block is not initialised. -/
def grown (block : List α) (junk : Nat → α) (n : Nat) : List α :=
  (List.range n).map fun i => block.getD i (junk i)

theorem store_eq (room : off + values.length ≤ block.length) :
    store block off values = some (block.take off ++ values ++ block.drop (off + values.length)) := if_pos room

theorem store_room (stored : store block off values = some block') : off + values.length ≤ block.length := by
  simp only [store] at stored
  split_ifs at stored with room
  exact room

theorem store_length (stored : store block off values = some block') : block'.length = block.length := by
  have room := store_room stored
  obtain rfl := Option.some.inj ((store_eq room).symm.trans stored)
  simp only [List.length_append,List.length_take,List.length_drop]
  omega

/-- What stands before the write, and the first values of it. -/
theorem store_front {more : List α} (stored : store block off (values ++ more) = some block') :
    block'.take (off + values.length) = block.take off ++ values := by
  have room := store_room stored
  obtain rfl := Option.some.inj ((store_eq room).symm.trans stored)
  rw [List.length_append] at room
  have size : (block.take off ++ values).length = off + values.length := by
    simp only [List.length_append,List.length_take]
    omega
  rw [← size,← List.append_assoc,List.append_assoc (_ ++ _),List.take_append_length]

theorem store_take (stored : store block off values = some block') :
    block'.take (off + values.length) = block.take off ++ values := by
  rw [← List.append_nil values] at stored
  exact store_front stored

theorem store_before (stored : store block off values = some block') (bound : n ≤ off) :
    block'.take n = block.take n := by
  have before := congrArg (List.take n) (store_take stored)
  have room := store_room stored
  rwa [List.take_take,Nat.min_eq_left (by omega),List.take_append_of_le_length (by rw [List.length_take]; omega),
    List.take_take,Nat.min_eq_left bound] at before

@[simp] theorem grown_length (block : List α) (junk : Nat → α) (n : Nat) : (grown block junk n).length = n := by
  simp [grown]

theorem grown_take (old : k ≤ block.length) (new : k ≤ n) (junk : Nat → α) :
    (grown block junk n).take k = block.take k := by
  apply List.ext_getElem
  · simp only [List.length_take,grown_length]
    omega
  intro i left right
  rw [List.length_take] at right
  have inside : i < block.length := by omega
  simp [grown,List.getD_eq_getElem?_getD,inside]

def load (block : List α) (off n : Nat) : Option (List α) :=
  if off + n ≤ block.length then some ((block.drop off).take n) else none

/-- The n values at two places of the block change their places. -/
def exchange (n a b : Nat) (block : List α) : Option (List α) := do
  let tmp ← load block a n
  let block ← store block a (← load block b n)
  store block b tmp

/-- A step given two places that exchanges the n values there, where they are apart. -/
def Exchanges (n : Nat) (step : Nat → Nat → List α → Option (List α)) : Prop :=
  ∀ front x mid y back : List α, x.length = n → y.length = n →
    step front.length (front ++ x ++ mid).length (front ++ x ++ mid ++ y ++ back) =
      some (front ++ y ++ mid ++ x ++ back)

theorem load_parts (front x back : List α) : load (front ++ x ++ back) front.length x.length = some x := by
  simp [load]

theorem store_parts (front x back : List α) {y : List α} (same : y.length = x.length) :
    store (front ++ x ++ back) front.length y = some (front ++ y ++ back) := by
  have behind : (front ++ x ++ back).drop (front.length + y.length) = back := by
    rw [same,← List.length_append,List.drop_left]
  rw [store_eq (by simp [same]),behind,List.append_assoc front x back,List.take_left]

theorem load_beyond {block : List α} (beyond : block.length < off + n) : load block off n = none := if_neg (by omega)

theorem exchange_beyond {block : List α} (beyond : block.length < b + n) : exchange n a b block = none := by
  cases read : load block a n <;> simp [exchange,read,load_beyond beyond]

theorem exchange_exchanges (n : Nat) : Exchanges n (exchange (α := α) n) := by
  rintro front x mid y back rfl same
  have readX : load (front ++ x ++ mid ++ y ++ back) front.length x.length = some x := by
    have read := load_parts front x (mid ++ y ++ back)
    simpa only [List.append_assoc] using read
  have readY : load (front ++ x ++ mid ++ y ++ back) (front ++ x ++ mid).length x.length = some y := by
    rw [← same]
    exact load_parts _ y back
  have writeX : store (front ++ x ++ mid ++ y ++ back) front.length y = some (front ++ y ++ mid ++ y ++ back) := by
    have write := store_parts front x (mid ++ y ++ back) same
    simpa only [List.append_assoc] using write
  have place : (front ++ x ++ mid).length = (front ++ y ++ mid).length := by simp [same]
  have writeY := store_parts (front ++ y ++ mid) y back same.symm
  simp only [exchange,readX,readY,writeX,Option.bind_eq_bind,Option.bind_some]
  rw [place,writeY]

theorem Exchanges.none : Exchanges 0 fun (_ _ : Nat) (block : List α) => some block := by
  intro front x mid y back emptyX emptyY
  rw [List.length_eq_zero_iff.mp emptyX,List.length_eq_zero_iff.mp emptyY]

/-- The next values are exchanged after the first ones. -/
theorem Exchanges.then {f g : Nat → Nat → List α → Option (List α)} (first : Exchanges n f) (next : Exchanges m g) :
    Exchanges (n + m) fun a b block => (f a b block).bind (g (a + n) (b + n)) := by
  intro front x mid y back lengthX lengthY
  obtain ⟨p,x,rfl,lengthP⟩ : ∃ p x', x = p ++ x' ∧ p.length = n := ⟨x.take n,x.drop n,by simp,by simp; omega⟩
  obtain ⟨q,y,rfl,lengthQ⟩ : ∃ q y', y = q ++ y' ∧ q.length = n := ⟨y.take n,y.drop n,by simp,by simp; omega⟩
  rw [List.length_append] at lengthX lengthY
  have one := first front p (x ++ mid) q (y ++ back) lengthP lengthQ
  have other := next (front ++ q) x (mid ++ p) y back (by omega) (by omega)
  have placeA : (front ++ q).length = front.length + n := by simp [lengthQ]
  have placeB : (front ++ q ++ x ++ (mid ++ p)).length = (front ++ (p ++ x) ++ mid).length + n := by
    simp [lengthP,lengthQ]
    omega
  rw [placeA,placeB] at other
  simp only [List.append_assoc] at one other ⊢
  rw [one,Option.bind_some,other]

end Lib
