import Bano.Lib.Heap

/-! A single handle beside a heap. It names all that is live there, or something that it does
not name was lost: such a cell stays live whatever the handle comes to name. -/
namespace Lib.Heap

/-- Nothing is live. -/
def Vacant (h : Heap α) : Prop := ∀ p, h.cell p = none

/-- What is live is what the handle names. -/
def Only (h : Heap α) (handle : Option Nat) : Prop := ∀ p, (∃ a, h.cell p = some a) ↔ handle = some p

/-- Something else than `p` is live. -/
def Stray (h : Heap α) (p : Nat) : Prop := ∃ q, q ≠ p ∧ ∃ a, h.cell q = some a

theorem only_none {h : Heap α} : h.Only none ↔ h.Vacant := by
  simp [Only,Vacant,Option.eq_none_iff_forall_ne_some]

theorem vacant_empty : (empty : Heap α).Vacant := fun _ => rfl

theorem Only.same {h h' : Heap α} (only : h.Only handle) (cells : ∀ p, h'.cell p = h.cell p) : h'.Only handle := by
  intro p
  rw [cells p]
  exact only p

theorem Only.live {h : Heap α} (only : h.Only (some p)) : ∃ a, h.cell p = some a := (only p).mpr rfl

theorem Vacant.alloc {h : Heap α} (vacant : h.Vacant) (a : α) : (h.alloc a).Only (some h.next) := by
  intro p
  by_cases here : p = h.next
  · subst here
    simp
  · simp [here,vacant p,Ne.symm here]

/-- Releasing through the handle leaves nothing. -/
theorem Only.free {h : Heap α} (only : h.Only (some p)) : ∃ h', h.free p = some h' ∧ h'.Vacant := by
  obtain ⟨a,live⟩ := only.live
  refine ⟨h.erase p,free_live live,fun q => ?_⟩
  by_cases here : q = p
  · subst here
    exact erase_cell_same h q
  · rw [erase_cell_other here,Option.eq_none_iff_forall_ne_some]
    intro b cell
    exact here (Option.some.inj ((only q).mp ⟨b,cell⟩)).symm

/-- The handle comes to name a new cell while the one that it named is live. -/
theorem stray_alloc {h : Heap α} (live : h.cell p = some a) (b : α) : (h.alloc b).Stray h.next :=
  ⟨p,next_ne live,a,alloc_cell_live live b⟩

theorem Stray.same {h h' : Heap α} (stray : h.Stray p) (cells : ∀ q, h'.cell q = h.cell q) : h'.Stray p := by
  obtain ⟨q,apart,a,live⟩ := stray
  exact ⟨q,apart,a,(cells q).trans live⟩

/-- A new cell that is erased at once. -/
theorem Stray.renewed {h : Heap α} (stray : h.Stray p) (b : α) : ((h.alloc b).erase h.next).Stray h.next := by
  obtain ⟨q,_,a,live⟩ := stray
  exact ⟨q,next_ne live,a,(alloc_erase_cell h b q).trans live⟩

theorem Stray.not_vacant {h : Heap α} (stray : h.Stray p) : ¬h.Vacant := by
  obtain ⟨q,_,a,live⟩ := stray
  intro vacant
  exact nomatch (vacant q).symm.trans live

theorem Stray.not_vacant_erase {h : Heap α} (stray : h.Stray p) : ¬(h.erase p).Vacant := by
  obtain ⟨q,apart,a,live⟩ := stray
  intro vacant
  exact nomatch (vacant q).symm.trans ((erase_cell_other apart h).trans live)

end Lib.Heap
