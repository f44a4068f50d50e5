import Mathlib.Algebra.GroupWithZero.Nat
import Mathlib.Logic.Function.Basic
import Mathlib.Tactic.Tauto
import Bano.BanoList

/-! The dictionary of bano_dict.c: keys are hashed to one of 2^n lists of pairs. A value stands
for the `val_size` bytes of a pair, so `β` may be any type of such blocks. -/
namespace Bano

open Lib

structure DictPair (β : Type) where
  key : U32
  val : β

structure Dict (β : Type) where
  lists : List (BanoList Ptr)
  log2Nlist : Nat
  pairs : Heap (DictPair β)

/-- The 32 to n bit hash function. -/
def hash32ToN (k : U32) (n : Nat) : U32 :=
  let k := (k + 0x479ab41d) + (k <<< 8)
  let k := (k ^^^ 0xe4aa10ce) ^^^ (k >>> 5)
  let k := (k + 0x9942f0a6) - (k <<< 14)
  let k := (k ^^^ 0x5aedd67d) ^^^ (k >>> 3)
  let k := (k + 0x17bea992) + (k <<< 7)
  k >>> (32 - n)

def getHash (d : Dict β) (k : U32) : Nat := (hash32ToN k d.log2Nlist).toNat

def getNlist (d : Dict β) : Nat := 1 <<< d.log2Nlist

def banoDictInitWithNlist (malloc : Bool) (log2Nlist : Nat) : Int × Dict β :=
  if malloc then (0,⟨List.replicate (1 <<< log2Nlist) banoListInit,log2Nlist,Heap.empty⟩)
  else (-1,⟨[],log2Nlist,Heap.empty⟩)

/-- The default list count is 8. -/
def banoDictInit (malloc : Bool) : Int × Dict β := banoDictInitWithNlist malloc 3

def findPairItem (d : Dict β) (k : U32) (it data : Ptr) (found : Option Ptr) : Option (Int × Option Ptr) := do
  let pair ← d.pairs.cell data
  if k ≠ pair.key then some (0,found) else some (-1,some it)

/-- The list and the item of the key, or none when the call returned -1. -/
def findPair (d : Dict β) (k : U32) : Option (Option (Nat × Ptr)) := do
  let h := getHash d k
  let l ← d.lists[h]?
  let (_,found) ← banoListForeach l (findPairItem d k) none
  some (found.map fun it => (h,it))

/-- The new pair, whose value is what malloc left there, or none when the call returned -1. -/
def banoDictAdd (mallocPair mallocItem : Bool) (junk : β) (d : Dict β) (k : U32) :
    Option (Option Ptr × Dict β) :=
  if mallocPair then do
    let h := getHash d k
    let p := d.pairs.next
    let l ← d.lists[h]?
    let (err,l) ← banoListAddTail mallocItem l p
    -- on_error_1 releases the pair again
    if err = 0 then some (some p,{ d with lists := d.lists.set h l, pairs := d.pairs.alloc ⟨k,junk⟩ })
    else some (none,d)
  else some (none,d)

def banoDictSet (d : Dict β) (k : U32) (v : β) : Option (Int × Dict β) := do
  match ← findPair d k with
  | none => some (-1,d)
  | some (h,it) =>
    let l ← d.lists[h]?
    let i ← l.items.cell it
    let pairs ← d.pairs.update i.data fun pair => { pair with val := v }
    some (0,{ d with pairs := pairs })

def banoDictSetOrAdd (mallocPair mallocItem : Bool) (junk : β) (d : Dict β) (k : U32) (v : β) :
    Option (Int × Dict β) := do
  let (err,d) ← banoDictSet d k v
  if err = 0 then some (0,d)
  else
    match ← banoDictAdd mallocPair mallocItem junk d k with
    | (none,d) => some (-1,d)
    | (some p,d) =>
      let pairs ← d.pairs.update p fun pair => { pair with val := v }
      some (0,{ d with pairs := pairs })

/-- The pair whose value the caller gets, or none when the call returned -1. -/
def banoDictGet (d : Dict β) (k : U32) : Option (Option Ptr) := do
  match ← findPair d k with
  | none => some none
  | some (h,it) =>
    let l ← d.lists[h]?
    let i ← l.items.cell it
    some (some i.data)

/-- Every caller passes a NULL callback; the pair itself is not released. -/
def banoDictDel (d : Dict β) (k : U32) : Option (Int × Dict β) := do
  match ← findPair d k with
  | none => some (-1,d)
  | some (h,it) =>
    let l ← d.lists[h]?
    let (_,l) ← banoListDel l it
    some (0,{ d with lists := d.lists.set h l })

/-- The loop of bano_dict_foreach, `n` lists from the i-th on. -/
def foreachList (d : Dict β) (f : Ptr → Ptr → σ → Option (Int × σ)) : Nat → Nat → σ → Option (Int × σ)
  | 0, _, p => some (0,p)
  | n + 1, i, p => do
    let l ← d.lists[i]?
    let (err,p) ← banoListForeach l f p
    if err ≠ 0 then some (-1,p) else foreachList d f n (i + 1) p

def banoDictForeach (d : Dict β) (f : Ptr → Ptr → σ → Option (Int × σ)) (p : σ) : Option (Int × σ) :=
  foreachList d f (getNlist d) 0 p

/-- What a caller of bano_dict_get reads. -/
def valueOf (d : Dict β) (k : U32) : Option (Option β) := do
  match ← banoDictGet d k with
  | none => some none
  | some p =>
    let pair ← d.pairs.cell p
    some (some pair.val)

/-- The lists hold the pairs of `table`, each key in the list of its hash and at most once,
and the pairs are the bindings of `m`. -/
structure Mapped (d : Dict β) (table : Nat → List (Ptr × Ptr)) (m : U32 → Option β) : Prop where
  low : 1 ≤ d.log2Nlist
  high : d.log2Nlist ≤ 30
  count : d.lists.length = getNlist d
  linked : ∀ h l, d.lists[h]? = some l → Linked l (table h)
  hashed : ∀ h, ∀ e ∈ table h, ∃ pair, d.pairs.cell e.2 = some pair ∧ getHash d pair.key = h
  distinct : ∀ h, ∀ e ∈ table h, ∀ c ∈ table h,
    (d.pairs.cell e.2).map DictPair.key = (d.pairs.cell c.2).map DictPair.key → e = c
  bound : ∀ k v, m k = some v ↔ ∃ e ∈ table (getHash d k), d.pairs.cell e.2 = some ⟨k,v⟩

theorem hash_lt (k : U32) (low : 1 ≤ n) (high : n ≤ 32) : (hash32ToN k n).toNat < 2 ^ n := by
  have shift : ∀ x : U32, (x >>> (32 - n)).toNat < 2 ^ n := by
    intro x
    rw [BitVec.toNat_ushiftRight,Nat.shiftRight_eq_div_pow]
    apply Nat.div_lt_of_lt_mul
    rw [← Nat.pow_add]
    have : 32 - n + n = 32 := by omega
    rw [this]
    exact x.isLt
  exact shift _

theorem Mapped.index {d : Dict β} (mapped : Mapped d table m) (k : U32) : getHash d k < d.lists.length := by
  have low := mapped.low
  have high := mapped.high
  rw [mapped.count,getNlist,Nat.one_shiftLeft]
  exact hash_lt k low (by omega)

theorem Mapped.list {d : Dict β} (mapped : Mapped d table m) (k : U32) :
    ∃ l, d.lists[getHash d k]? = some l ∧ Linked l (table (getHash d k)) := by
  have stored := List.getElem?_eq_getElem (mapped.index k)
  exact ⟨_,stored,mapped.linked _ _ stored⟩

/-- The callback stops at the first pair that has the key. -/
theorem visit_findPairItem {d : Dict β} (live : ∀ e ∈ xs, ∃ pair, d.pairs.cell e.2 = some pair)
    (k : U32) (found : Option Ptr) :
    (∃ e ∈ xs, ∃ v, d.pairs.cell e.2 = some ⟨k,v⟩ ∧
      visit (findPairItem d k) xs found = some (-1,some e.1)) ∨
    (∀ e ∈ xs, ∀ v, d.pairs.cell e.2 ≠ some ⟨k,v⟩) ∧
      visit (findPairItem d k) xs found = some (0,found) := by
  induction xs with
  | nil => exact .inr ⟨by simp,rfl⟩
  | cons e xs ih =>
    obtain ⟨⟨key,v⟩,cell⟩ := live e List.mem_cons_self
    by_cases same : k = key
    · subst same
      exact .inl ⟨e,List.mem_cons_self,v,cell,by simp [visit,findPairItem,cell]⟩
    · have skip : visit (findPairItem d k) (e :: xs) found = visit (findPairItem d k) xs found := by
        simp [visit,findPairItem,cell,same]
      rcases ih fun c member => live c (List.mem_cons_of_mem _ member) with
        ⟨c,member,v,held,stopped⟩ | ⟨absent,passed⟩
      · exact .inl ⟨c,List.mem_cons_of_mem _ member,v,held,skip.trans stopped⟩
      · refine .inr ⟨?_,skip.trans passed⟩
        intro c member v held
        rcases List.mem_cons.mp member with rfl | later
        · rw [cell] at held
          exact same (congrArg DictPair.key (Option.some.inj held)).symm
        · exact absent c later v held

/-- find_pair returns the one item of the key exactly when the key is bound. -/
theorem findPair_cases {d : Dict β} (mapped : Mapped d table m) (k : U32) :
    (∃ e ∈ table (getHash d k), ∃ v, d.pairs.cell e.2 = some ⟨k,v⟩ ∧ m k = some v ∧
      findPair d k = some (some (getHash d k,e.1))) ∨
    m k = none ∧ findPair d k = some none := by
  obtain ⟨l,stored,linked⟩ := mapped.list k
  have live : ∀ e ∈ table (getHash d k), ∃ pair, d.pairs.cell e.2 = some pair :=
    fun e member => (mapped.hashed _ e member).imp fun _ => And.left
  rcases visit_findPairItem live k none with ⟨e,member,v,cell,stopped⟩ | ⟨absent,passed⟩
  · refine .inl ⟨e,member,v,cell,(mapped.bound k v).mpr ⟨e,member,cell⟩,?_⟩
    simp [findPair,stored,banoListForeach_visit linked,stopped]
  · refine .inr ⟨?_,?_⟩
    · rw [Option.eq_none_iff_forall_ne_some]
      intro v bound
      obtain ⟨e,member,cell⟩ := (mapped.bound k v).mp bound
      exact absent e member v cell
    · simp [findPair,stored,banoListForeach_visit linked,passed]

/-- Storing a value in the pair of a key rebinds that key alone. -/
theorem Mapped.store {d : Dict β} (mapped : Mapped d table m) (member : e ∈ table (getHash d k))
    (cell : d.pairs.cell e.2 = some ⟨k,v⟩) (w : β) :
    Mapped { d with pairs := d.pairs.modify e.2 fun pair => { pair with val := w } } table
      (Function.update m k (some w)) := by
  have keys : ∀ p, ((d.pairs.modify e.2 fun pair => { pair with val := w }).cell p).map DictPair.key =
      (d.pairs.cell p).map DictPair.key := by
    intro p
    rw [Heap.modify_cell]
    split
    · cases d.pairs.cell p <;> rfl
    · rfl
  refine ⟨mapped.low,mapped.high,mapped.count,mapped.linked,?_,?_,?_⟩
  · intro h c inside
    obtain ⟨pair,live,hash⟩ := mapped.hashed h c inside
    have same := keys c.2
    rw [live,Option.map_some,Option.map_eq_some_iff] at same
    obtain ⟨pair',live',key⟩ := same
    exact ⟨pair',live',by rw [key]; exact hash⟩
  · intro h c inside c' inside' same
    exact mapped.distinct h c inside c' inside' (by rw [← keys,← keys]; exact same)
  · intro k' v'
    change _ ↔ ∃ c ∈ table (getHash d k'), _
    by_cases other : k' = k
    · subst other
      rw [Function.update_self]
      constructor
      · rintro ⟨⟩
        exact ⟨e,member,by simp [cell]⟩
      · rintro ⟨c,inside,live⟩
        have same : (d.pairs.cell c.2).map DictPair.key = (d.pairs.cell e.2).map DictPair.key := by
          rw [← keys,live,cell]; rfl
        obtain rfl := mapped.distinct _ c inside e member same
        simpa [cell] using live
    · rw [Function.update_of_ne other,mapped.bound]
      refine exists_congr fun c => and_congr_right fun _ => ?_
      by_cases here : c.2 = e.2
      · rw [here,cell]
        simp [cell,Ne.symm other]
      · rw [Heap.modify_cell_other here]

theorem banoDictSet_bound {d : Dict β} (mapped : Mapped d table m) (bound : m k = some v) (w : β) :
    ∃ d', banoDictSet d k w = some (0,d') ∧ Mapped d' table (Function.update m k (some w)) := by
  obtain ⟨l,stored,linked⟩ := mapped.list k
  rcases findPair_cases mapped k with ⟨e,member,v',cell,_,found⟩ | ⟨unbound,_⟩
  · obtain ⟨i,item,data⟩ := linked.live member
    refine ⟨_,?_,mapped.store member cell w⟩
    simp [banoDictSet,found,stored,item,data,Heap.update_live cell]
  · simp [unbound] at bound

theorem banoDictSet_unbound {d : Dict β} (mapped : Mapped d table m) (unbound : m k = none) (w : β) :
    banoDictSet d k w = some (-1,d) := by
  rcases findPair_cases mapped k with ⟨_,_,_,_,bound,_⟩ | ⟨_,missed⟩
  · simp [unbound] at bound
  · simp [banoDictSet,missed]

theorem valueOf_mapped {d : Dict β} (mapped : Mapped d table m) (k : U32) : valueOf d k = some (m k) := by
  obtain ⟨l,stored,linked⟩ := mapped.list k
  rcases findPair_cases mapped k with ⟨e,member,v,cell,bound,found⟩ | ⟨unbound,missed⟩
  · obtain ⟨i,item,data⟩ := linked.live member
    simp [valueOf,banoDictGet,found,stored,item,data,cell,bound]
  · simp [valueOf,banoDictGet,missed,unbound]

end Bano
