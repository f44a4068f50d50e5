import Bano.LinkedList
import Bano.Node
import Bano.TimerDeletion

/-! The queue while every timer is added with the one retry delay: none is due later, so all
additions go to the tail and every backward link stays right. -/
namespace Bano

open Lib

def timersOf (q : TimerQueue) : List Ptr := (entriesOf q.list).map Prod.snd

/-- The item that the timer designates, and its node. -/
def designated (q : TimerQueue) (t : Ptr) : Option (Ptr × Option Ptr) := (q.timers.cell t).bind BanoTimer.data

structure Tailed (q : TimerQueue) : Prop where
  queued : Queued Exact q (entriesOf q.list)
  due : total q (entriesOf q.list) ≤ retryMs.toNat

theorem banoTimerInit_tailed : Tailed banoTimerInit :=
  ⟨banoTimerInit_queued _,by decide⟩

theorem Tailed.intro {q : TimerQueue} (queued : Queued Exact q xs) (due : total q xs ≤ retryMs.toNat) :
    entriesOf q.list = xs ∧ Tailed q := by
  obtain rfl := entriesOf_linked queued.linked
  exact ⟨rfl,queued,due⟩

theorem Tailed.nodup {q : TimerQueue} (tailed : Tailed q) : (timersOf q).Nodup := by
  refine List.Nodup.map_on ?_ (List.Nodup.of_map _ tailed.queued.linked.nodup)
  intro e one d other same
  by_contra apart
  refine tailed.queued.timer_ne one other (fun item => apart ?_) same
  exact Prod.ext item same

theorem Tailed.live {q : TimerQueue} (tailed : Tailed q) (member : t ∈ timersOf q) :
    ∃ ti, q.timers.cell t = some ti ∧ (ti.it,t) ∈ entriesOf q.list := by
  obtain ⟨e,listed,rfl⟩ := List.mem_map.mp member
  obtain ⟨ti,cell,item⟩ := tailed.queued.timer e listed
  exact ⟨ti,cell,by rw [item]; exact listed⟩

theorem Tailed.fresh {q : TimerQueue} (tailed : Tailed q) : q.timers.next ∉ timersOf q := by
  intro member
  obtain ⟨ti,cell,_⟩ := tailed.live member
  exact Heap.next_ne cell rfl

/-- The timer of an io that post_io moves to its node's pending ios. -/
theorem Tailed.add {q : TimerQueue} (tailed : Tailed q) (data : Ptr × Option Ptr) :
    ∃ q' timers, banoTimerAdd true true q retryMs = some (some q.timers.next,q') ∧
      q'.timers.update q.timers.next (fun ti => { ti with data := some data }) = some timers ∧
      Tailed ⟨q'.list,timers⟩ ∧ timersOf ⟨q'.list,timers⟩ = timersOf q ++ [q.timers.next] ∧
      designated ⟨q'.list,timers⟩ q.timers.next = some data ∧
      ∀ t ∈ timersOf q, designated ⟨q'.list,timers⟩ t = designated q t := by
  obtain ⟨list,rel,added,queued,relEq⟩ := banoTimerAdd_tail exact_right tailed.queued tailed.due
  have cell := Heap.alloc_cell_next q.timers ⟨rel,q.list.items.next,none⟩
  refine ⟨_,_,added,Heap.update_live cell _,?_⟩
  rw [Heap.alloc_modify]
  have other : ∀ t ∈ timersOf q, t ≠ q.timers.next := fun t member same => tailed.fresh (same ▸ member)
  have rels : ∀ e : Ptr × Ptr, relOf ⟨list,q.timers.alloc ⟨rel,q.list.items.next,some data⟩⟩ e.2 =
      relOf ⟨list,q.timers.alloc ⟨rel,q.list.items.next,none⟩⟩ e.2 := by
    intro e
    by_cases here : e.2 = q.timers.next <;> simp [relOf,Heap.alloc_cell,here]
  have sum : total ⟨list,q.timers.alloc ⟨rel,q.list.items.next,some data⟩⟩
      (entriesOf q.list ++ [(q.list.items.next,q.timers.next)]) = retryMs.toNat := by
    have old : total ⟨list,q.timers.alloc ⟨rel,q.list.items.next,some data⟩⟩ (entriesOf q.list) =
        total q (entriesOf q.list) :=
      total_congr fun e member => Heap.alloc_cell_other (other _ (List.mem_map_of_mem member)) _
    have due := tailed.due
    rw [total_append,old,total_cons,total_nil]
    simp only [relOf,Heap.alloc_cell_next,Option.map_some,Option.getD_some,relEq]
    omega
  have queued' : Queued Exact ⟨list,q.timers.alloc ⟨rel,q.list.items.next,some data⟩⟩
      (entriesOf q.list ++ [(q.list.items.next,q.timers.next)]) := by
    refine ⟨queued.linked,fun e member => ?_,by rw [sum]; decide⟩
    rcases List.mem_append.mp member with old | new
    · obtain ⟨ti,cell,item⟩ := tailed.queued.timer e old
      exact ⟨ti,Heap.alloc_cell_live cell _,item⟩
    · obtain rfl := List.mem_singleton.mp new
      exact ⟨_,Heap.alloc_cell_next _ _,rfl⟩
  obtain ⟨entries,tailed'⟩ := Tailed.intro queued' (Nat.le_of_eq sum)
  refine ⟨tailed',by rw [timersOf,entries,List.map_append]; rfl,by simp [designated],fun t member => ?_⟩
  simp [designated,other t member]

/-- Deleting keeps the other timers and what they designate. -/
theorem Tailed.del {q : TimerQueue} (tailed : Tailed q) (member : t ∈ timersOf q) :
    ∃ q', banoTimerDel q t = some q' ∧ Tailed q' ∧ (∀ u, u ∈ timersOf q' ↔ u ∈ timersOf q ∧ u ≠ t) ∧
      ∀ u ∈ timersOf q, u ≠ t → designated q' u = designated q u := by
  obtain ⟨ti,live,listed⟩ := tailed.live member
  obtain ⟨before,rest,split⟩ := List.append_of_mem listed
  have queued := tailed.queued
  have due := tailed.due
  have nodup := tailed.nodup
  rw [timersOf] at nodup
  rw [split] at queued due nodup
  obtain ⟨_,⟨back,cell,link⟩,_⟩ := segment_append.mp queued.linked.chain
  obtain ⟨q',deleted,queued',timers,same⟩ := banoTimerDel_queued exact_right queued cell (.inl ⟨link,rfl⟩)
  have due' : total q' (before ++ rest) ≤ retryMs.toNat := by
    rw [total_eq same]
    simp only [total_append,total_cons] at due ⊢
    omega
  obtain ⟨entries,tailed'⟩ := Tailed.intro queued' due'
  refine ⟨q',deleted,tailed',fun u => ?_,fun u _ other => by simp [designated,timers,other]⟩
  simp only [timersOf,entries,split,List.map_append,List.map_cons,List.mem_append,List.mem_cons]
  simp only [List.map_append,List.map_cons,List.nodup_append,List.nodup_cons] at nodup
  obtain ⟨_,⟨later,_⟩,apart⟩ := nodup
  constructor
  · rintro (early | late)
    · exact ⟨.inl early,fun same => apart u early t List.mem_cons_self same⟩
    · exact ⟨.inr (.inr late),fun same => later (same ▸ late)⟩
  · rintro ⟨early | rfl | late,other⟩
    · exact .inl early
    · exact (other rfl).elim
    · exact .inr late

def Timeval.ms (tv : Timeval) : Nat := tv.sec * 1000 + tv.usec / 1000

theorem banoTimerGetNext_head {q : TimerQueue} (tailed : Tailed q) :
    entriesOf q.list = [] ∧ banoTimerGetNext q = some none ∨
    ∃ e rest ti tv, entriesOf q.list = e :: rest ∧ q.timers.cell e.2 = some ti ∧ tv.ms = ti.relMs.toNat ∧
      banoTimerGetNext q = some (some (e.2,tv)) := by
  have head := tailed.queued.linked.head
  cases entries : entriesOf q.list with
  | nil =>
    rw [entries] at head
    exact .inl ⟨rfl,by simp [banoTimerGetNext,head]⟩
  | cons e rest =>
    have chain := tailed.queued.linked.chain
    rw [entries] at head chain
    obtain ⟨⟨back,cell,_⟩,_⟩ := chain
    obtain ⟨ti,live,_⟩ := tailed.queued.timer e (by simp [entries])
    refine .inr ⟨e,rest,ti,_,rfl,live,?_,by simp [banoTimerGetNext,head,cell,live]; rfl⟩
    simp only [Timeval.ms]
    omega

/-- The head timer only comes closer. -/
theorem Tailed.update {q : TimerQueue} (tailed : Tailed q) (entries : entriesOf q.list = e :: rest)
    (cell : q.timers.cell e.2 = some ti) (tv : Timeval) (sooner : tv.ms ≤ ti.relMs.toNat) :
    ∃ q', banoTimerUpdate q e.2 tv = some q' ∧ Tailed q' ∧ entriesOf q'.list = entriesOf q.list ∧
      ∀ t, designated q' t = designated q t := by
  have ms : tv.relMs.toNat = tv.ms := by
    have bound := ti.relMs.isLt
    simp only [Timeval.relMs,Timeval.ms] at sooner ⊢
    rw [BitVec.toNat_add,BitVec.toNat_ofNat,BitVec.toNat_ofNat]
    omega
  have nodup := tailed.nodup
  rw [timersOf,entries,List.map_cons,List.nodup_cons] at nodup
  have others : ∀ d ∈ rest, (q.timers.modify e.2 fun ti => { ti with relMs := tv.relMs }).cell d.2 =
      q.timers.cell d.2 := by
    intro d member
    refine Heap.modify_cell_other (fun same => nodup.1 ?_) _ _
    rw [← same]
    exact List.mem_map_of_mem member
  have sum : total ⟨q.list,q.timers.modify e.2 fun ti => { ti with relMs := tv.relMs }⟩ (entriesOf q.list) ≤
      total q (entriesOf q.list) := by
    rw [entries,total_cons,total_cons,total_congr others,relOf_live cell]
    simp only [relOf,Heap.modify_cell_same,cell,Option.map_some,Option.getD_some,ms]
    omega
  refine ⟨⟨q.list,q.timers.modify e.2 fun ti => { ti with relMs := tv.relMs }⟩,?_,
    ⟨⟨tailed.queued.linked,?_,Nat.lt_of_le_of_lt sum tailed.queued.bounded⟩,Nat.le_trans sum tailed.due⟩,rfl,?_⟩
  · simp [banoTimerUpdate,Heap.update_live cell]
  · intro d member
    obtain ⟨di,live,item⟩ := tailed.queued.timer d member
    by_cases here : d.2 = e.2
    · rw [here] at live
      exact ⟨{ di with relMs := tv.relMs },by simp [here,live],item⟩
    · exact ⟨di,by simp [here,live],item⟩
  · intro t
    by_cases here : t = e.2
    · subst here
      simp [designated,cell]
    · simp [designated,here]

end Bano
