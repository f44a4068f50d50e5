import Bano.DictMap

/-! Dictionaries that were built by bano_dict_init and the operations on them, known by what
bano_dict_get reads. -/
namespace Bano

open Lib

structure Store (β : Type) where
  dict : Dict β
  mapped : ∃ table m, Mapped dict table m

/-- Any of the two allocations of bano_dict_add may fail. -/
theorem banoDictSetOrAdd_cases {d : Dict β} (mapped : Mapped d table m) (mallocPair mallocItem : Bool)
    (junk : β) (k : U32) (v : β) :
    (((mallocPair && mallocItem) = true ∨ m k ≠ none) ∧
      ∃ d' table', banoDictSetOrAdd mallocPair mallocItem junk d k v = some (0,d') ∧
        Mapped d' table' (Function.update m k (some v))) ∨
    m k = none ∧ (mallocPair && mallocItem) = false ∧
      banoDictSetOrAdd mallocPair mallocItem junk d k v = some (-1,d) := by
  cases held : m k with
  | some w =>
    obtain ⟨d',result,mapped'⟩ := banoDictSet_bound mapped held v
    exact .inl ⟨.inr (by simp),d',table,by simp [banoDictSetOrAdd,result],mapped'⟩
  | none =>
    have missed := banoDictSet_unbound mapped held v
    obtain ⟨l,stored,_⟩ := mapped.list k
    cases mallocPair with
    | false => exact .inr ⟨rfl,rfl,by simp [banoDictSetOrAdd,missed,banoDictAdd]⟩
    | true =>
      cases mallocItem with
      | false => exact .inr ⟨rfl,rfl,by simp [banoDictSetOrAdd,missed,banoDictAdd,stored,banoListAddTail]⟩
      | true =>
        obtain ⟨d',table',result,mapped'⟩ := banoDictSetOrAdd_mapped mapped junk k v
        exact .inl ⟨.inl rfl,d',table',result,mapped'⟩

namespace Store

def init : Store β := ⟨(banoDictInit true).2,_,_,banoDictInit_mapped (by decide) (by decide)⟩

/-- What bano_dict_get finds under the key. -/
def lookup (s : Store β) (k : U32) : Option β := (valueOf s.dict k).join

def setOrAdd (mallocPair mallocItem : Bool) (junk : β) (s : Store β) (k : U32) (v : β) : Int × Store β :=
  match result : banoDictSetOrAdd mallocPair mallocItem junk s.dict k v with
  | none => (-1,s)
  | some (err,d) =>
    (err,⟨d,by
      obtain ⟨table,m,mapped⟩ := s.mapped
      rcases banoDictSetOrAdd_cases mapped mallocPair mallocItem junk k v with
        ⟨_,d',table',added,mapped'⟩ | ⟨_,_,failed⟩
      · obtain ⟨rfl,rfl⟩ := Prod.mk.inj (Option.some.inj (result.symm.trans added))
        exact ⟨_,_,mapped'⟩
      · obtain ⟨rfl,rfl⟩ := Prod.mk.inj (Option.some.inj (result.symm.trans failed))
        exact ⟨_,_,mapped⟩⟩)

theorem lookup_mapped {s : Store β} (mapped : Mapped s.dict table m) (k : U32) : s.lookup k = m k := by
  simp [lookup,valueOf_mapped mapped]

@[simp] theorem init_lookup (k : U32) : (init : Store β).lookup k = none := by
  have mapped : Mapped (banoDictInit true : Int × Dict β).2 (fun _ => []) fun _ => none :=
    banoDictInit_mapped (by decide) (by decide)
  exact lookup_mapped (s := init) mapped k

/-- A key that is bound is never lost to an allocation failure. -/
theorem lookup_setOrAdd (mallocPair mallocItem : Bool) (junk : β) (s : Store β) (k : U32) (v : β) (k' : U32) :
    (s.setOrAdd mallocPair mallocItem junk k v).2.lookup k' =
      if k' = k ∧ ((mallocPair && mallocItem) = true ∨ s.lookup k ≠ none) then some v else s.lookup k' := by
  obtain ⟨table,m,mapped⟩ := s.mapped
  simp only [lookup_mapped mapped]
  unfold setOrAdd
  rcases banoDictSetOrAdd_cases mapped mallocPair mallocItem junk k v with
    ⟨bound,d',table',added,mapped'⟩ | ⟨unbound,fails,failed⟩
  · split
    · next missing => simp [missing] at added
    · next err d result =>
      obtain ⟨rfl,rfl⟩ := Prod.mk.inj (Option.some.inj (result.symm.trans added))
      rw [lookup_mapped mapped']
      by_cases same : k' = k
      · rw [if_pos ⟨same,bound⟩,same,Function.update_self]
      · rw [if_neg fun both => same both.1,Function.update_of_ne same]
  · have unchanged : ¬(k' = k ∧ ((mallocPair && mallocItem) = true ∨ m k ≠ none)) := by
      rintro ⟨_,succeeds | held⟩
      · simp [fails] at succeeds
      · exact held unbound
    rw [if_neg unchanged]
    split
    · exact lookup_mapped mapped k'
    · next err d result =>
      obtain ⟨rfl,rfl⟩ := Prod.mk.inj (Option.some.inj (result.symm.trans failed))
      exact lookup_mapped mapped k'

end Store
end Bano
