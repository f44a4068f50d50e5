import Mathlib.Data.List.Nodup
import Bano.Lib.Heap

/-! Several handles beside a heap, none of which names what another one names: together they name all that is live. -/
namespace Lib.Heap

/-- What is live is what the handles name, each of them something else. -/
structure Exactly (h : Heap α) (handles : List Nat) : Prop where
  live : ∀ p, (∃ a, h.cell p = some a) ↔ p ∈ handles
  apart : handles.Nodup

theorem Exactly.empty : (empty : Heap α).Exactly [] := ⟨by simp,List.nodup_nil⟩

theorem Exactly.vacant {h : Heap α} (exact : h.Exactly []) (p : Nat) : h.cell p = none := by
  rw [Option.eq_none_iff_forall_ne_some]
  exact fun a cell => nomatch (exact.live p).mp ⟨a,cell⟩

theorem Exactly.perm {h : Heap α} (exact : h.Exactly handles) (perm : handles.Perm handles') : h.Exactly handles' :=
  ⟨fun p => (exact.live p).trans perm.mem_iff,perm.nodup_iff.mp exact.apart⟩

theorem Exactly.alloc {h : Heap α} (exact : h.Exactly handles) (a : α) : (h.alloc a).Exactly (h.next :: handles) := by
  have unknown : h.next ∉ handles := fun member => by
    obtain ⟨b,cell⟩ := (exact.live _).mpr member
    exact next_ne cell rfl
  refine ⟨fun p => ?_,List.nodup_cons.mpr ⟨unknown,exact.apart⟩⟩
  by_cases here : p = h.next
  · subst here
    simp
  · rw [alloc_cell_other here,exact.live,List.mem_cons,or_iff_right here]

theorem Exactly.modify {h : Heap α} (exact : h.Exactly handles) (p : Nat) (f : α → α) :
    (h.modify p f).Exactly handles := by
  refine ⟨fun q => ?_,exact.apart⟩
  rw [← exact.live q,modify_cell]
  split <;> simp

/-- Releasing what the first handle names. -/
theorem Exactly.free {h : Heap α} (exact : h.Exactly (p :: handles)) :
    h.free p = some (h.erase p) ∧ (h.erase p).Exactly handles := by
  obtain ⟨a,cell⟩ := (exact.live p).mpr List.mem_cons_self
  obtain ⟨outside,apart⟩ := List.nodup_cons.mp exact.apart
  refine ⟨free_live cell,fun q => ?_,apart⟩
  by_cases here : q = p
  · subst here
    simp [outside]
  · rw [erase_cell_other here,exact.live,List.mem_cons,or_iff_right here]

end Lib.Heap
