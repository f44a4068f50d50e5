import Mathlib.Logic.Function.Basic
import Bano.Steps

/-! Where each io of the base is: in which list, under which timer, or released. -/
namespace Bano

open Lib

/-- An io that is `taken` is answered: it left its list and is released in the same step. -/
inductive Status where
  | posted (node li : Ptr)
  | pending (node li t : Ptr)
  | taken (t : Ptr)
  | released

def Status.timer : Status → Option Ptr
  | .pending _ _ t => some t
  | .taken t => some t
  | _ => none

/-- What the record of the io and its timer say in each status. -/
def Held (b : Base) (io : Ptr) : Status → Prop
  | .posted node _ => (∃ n, b.nodeMem.cell node = some n) ∧ ∃ r, b.ioMem.cell io = some r ∧ r.node = some node ∧
      (r.waits = true → r.retryMs = retryMs)
  | .pending node li t => (∃ n, b.nodeMem.cell node = some n) ∧ designated b.timers t = some (node,some li) ∧
      ∃ r, b.ioMem.cell io = some r ∧ r.node = some node ∧ r.waits = true ∧ r.retryMs = retryMs ∧ r.timer = some t
  | .taken t => ∃ r, b.ioMem.cell io = some r ∧ r.timer = some t
  | .released => b.ioMem.cell io = none

structure Placed (b : Base) (status : Ptr → Option Status) : Prop where
  posted : ∀ node n, b.nodeMem.cell node = some n → ∀ li io,
    (li,io) ∈ n.postedIos.entries ↔ status io = some (.posted node li)
  pending : ∀ node n, b.nodeMem.cell node = some n → ∀ li io,
    (li,io) ∈ n.pendingIos.entries ↔ ∃ t, status io = some (.pending node li t)
  held : ∀ io s, status io = some s → Held b io s
  fresh : ∀ io s, status io = some s → io < b.ioMem.next
  tailed : Tailed b.timers
  timers : ∀ t, t ∈ timersOf b.timers ↔ ∃ io s, status io = some s ∧ s.timer = some t
  owner : ∀ t io s io' s', status io = some s → s.timer = some t → status io' = some s' →
    s'.timer = some t → io = io'
  accepted : ∀ io, (∃ s, status io = some s) ↔ ∃ node r, .posted node io r ∈ b.trace

/-- The timer of the io, if it has one. -/
def timerOf (status : Ptr → Option Status) (io : Ptr) : Option Ptr := (status io).bind Status.timer

theorem timerOf_eq_some : timerOf status io = some t ↔ ∃ s, status io = some s ∧ s.timer = some t :=
  Option.bind_eq_some_iff

/-- What a step may do to the lists of a node when it gives the status `new` to the io `i`. -/
structure Relisted (n n' : BanoNode) (i node : Ptr) (new : Status) : Prop where
  posted : ∀ li io, io ≠ i → ((li,io) ∈ n'.postedIos.entries ↔ (li,io) ∈ n.postedIos.entries)
  pending : ∀ li io, io ≠ i → ((li,io) ∈ n'.pendingIos.entries ↔ (li,io) ∈ n.pendingIos.entries)
  own : ∀ li, (li,i) ∈ n'.postedIos.entries ↔ new = .posted node li
  ownPending : ∀ li, (li,i) ∈ n'.pendingIos.entries ↔ ∃ t, new = .pending node li t

/-- What it may do to the timers. -/
structure Retimed (q q' : TimerQueue) (old new : Option Ptr) : Prop where
  tailed : Tailed q'
  timers : ∀ t, t ∈ timersOf q' ↔ t ∈ timersOf q ∧ old ≠ some t ∨ new = some t
  kept : ∀ t ∈ timersOf q, old ≠ some t → designated q' t = designated q t
  own : ∀ t, new = some t → t ∉ timersOf q ∨ old = some t

theorem Retimed.refl (tailed : Tailed q) (old : Option Ptr) (held : ∀ t, old = some t → t ∈ timersOf q) :
    Retimed q q old old := by
  refine ⟨tailed,fun t => ?_,fun _ _ _ => rfl,fun t same => .inr same⟩
  by_cases same : old = some t
  · simp [same,held t same]
  · simp [same]

/-- Everything else stays where it is. -/
theorem Placed.move {b b' : Base} (placed : Placed b status) (i : Ptr) (new : Status)
    (nodes : ∀ p n', b'.nodeMem.cell p = some n' → ∃ n, b.nodeMem.cell p = some n ∧ Relisted n n' i p new)
    (live : ∀ p n, b.nodeMem.cell p = some n → ∃ n', b'.nodeMem.cell p = some n')
    (ios : ∀ io s, io ≠ i → status io = some s → b'.ioMem.cell io = b.ioMem.cell io)
    (next : b.ioMem.next ≤ b'.ioMem.next) (inside : i < b'.ioMem.next) (held : Held b' i new)
    (timers : Retimed b.timers b'.timers (timerOf status i) new.timer)
    (accepted : ∀ io, (∃ node r, .posted node io r ∈ b'.trace) ↔ io = i ∨ ∃ node r,
      .posted node io r ∈ b.trace) :
    Placed b' (Function.update status i (some new)) := by
  have other : ∀ io, io ≠ i → Function.update status i (some new) io = status io :=
    fun io apart => Function.update_of_ne apart _ _
  have here : Function.update status i (some new) i = some new := Function.update_self _ _ _
  refine ⟨?_,?_,?_,?_,timers.tailed,?_,?_,?_⟩
  · intro p n' cell' li io
    obtain ⟨n,cell,relisted⟩ := nodes p n' cell'
    by_cases same : io = i
    · subst same
      rw [here,relisted.own li,Option.some.injEq]
    · rw [other io same,relisted.posted li io same]
      exact placed.posted p n cell li io
  · intro p n' cell' li io
    obtain ⟨n,cell,relisted⟩ := nodes p n' cell'
    by_cases same : io = i
    · subst same
      simp only [here,relisted.ownPending li,Option.some.injEq]
    · rw [other io same,relisted.pending li io same]
      exact placed.pending p n cell li io
  · intro io s status'
    by_cases same : io = i
    · subst same
      rw [here] at status'
      exact (Option.some.inj status') ▸ held
    · rw [other io same] at status'
      have before := placed.held io s status'
      have record := ios io s same status'
      cases s with
      | posted p li =>
        obtain ⟨⟨n,cell⟩,r,ioCell,rest⟩ := before
        exact ⟨live p n cell,r,record ▸ ioCell,rest⟩
      | pending p li t =>
        obtain ⟨⟨n,cell⟩,data,r,ioCell,rest⟩ := before
        refine ⟨live p n cell,?_,r,record ▸ ioCell,rest⟩
        rw [timers.kept t ((placed.timers t).mpr ⟨io,_,status',rfl⟩),data]
        intro mine
        obtain ⟨s,status'',timer⟩ := timerOf_eq_some.mp mine
        exact same (placed.owner t io _ i s status' rfl status'' timer)
      | taken t =>
        obtain ⟨r,ioCell,timer⟩ := before
        exact ⟨r,record ▸ ioCell,timer⟩
      | released => exact record.trans before
  · intro io s status'
    by_cases same : io = i
    · exact same ▸ inside
    · rw [other io same] at status'
      exact Nat.lt_of_lt_of_le (placed.fresh io s status') next
  · intro t
    rw [timers.timers,placed.timers]
    constructor
    · rintro (⟨⟨io,s,status',timer⟩,notMine⟩ | mine)
      · have same : io ≠ i := by
          rintro rfl
          exact notMine (timerOf_eq_some.mpr ⟨s,status',timer⟩)
        exact ⟨io,s,(other io same).trans status',timer⟩
      · exact ⟨i,new,here,mine⟩
    · rintro ⟨io,s,status',timer⟩
      by_cases same : io = i
      · subst same
        rw [here] at status'
        exact .inr ((Option.some.inj status') ▸ timer)
      · rw [other io same] at status'
        refine .inl ⟨⟨io,s,status',timer⟩,fun mine => ?_⟩
        obtain ⟨s',status'',timer'⟩ := timerOf_eq_some.mp mine
        exact same (placed.owner t io s i s' status' timer status'' timer')
  · intro t io s io' s' one timer two timer'
    have foreign : ∀ io s, io ≠ i → status io = some s → s.timer = some t → new.timer ≠ some t := by
      intro io s apart status' timer mine
      rcases timers.own t mine with fresh | mine'
      · exact fresh ((placed.timers t).mpr ⟨io,s,status',timer⟩)
      · obtain ⟨s',status'',timer'⟩ := timerOf_eq_some.mp mine'
        exact apart (placed.owner t io s i s' status' timer status'' timer')
    by_cases same : io = i <;> by_cases same' : io' = i
    · exact same.trans same'.symm
    · subst same
      rw [here] at one
      rw [other io' same'] at two
      obtain rfl := Option.some.inj one
      exact (foreign io' s' same' two timer' timer).elim
    · subst same'
      rw [here] at two
      rw [other io same] at one
      obtain rfl := Option.some.inj two
      exact (foreign io s same one timer timer').elim
    · rw [other io same] at one
      rw [other io' same'] at two
      exact placed.owner t io s io' s' one timer two timer'
  · intro io
    rw [accepted,← placed.accepted]
    by_cases same : io = i
    · subst same
      simp
    · simp [same]

/-- How a list changes at `i`: the items that carry it are those of `P`. -/
structure Entry (l l' : LinkedList Ptr) (i : Ptr) (P : Ptr → Prop) : Prop where
  others : ∀ li io, io ≠ i → ((li,io) ∈ l'.entries ↔ (li,io) ∈ l.entries)
  own : ∀ li, (li,i) ∈ l'.entries ↔ P li

theorem Entry.same (absent : ∀ li, (li,i) ∉ l.entries) : Entry l l i fun _ => False :=
  ⟨fun _ _ _ => Iff.rfl,fun li => by simp [absent li]⟩

theorem Entry.add {l l' : LinkedList Ptr} (absent : ∀ li, (li,i) ∉ l.entries)
    (added : l'.entries = l.entries ++ [(it,i)]) : Entry l l' i fun li => li = it := by
  refine ⟨fun li io other => ?_,fun li => ?_⟩
  · simp [added,other]
  · simp [added,absent li]

theorem Entry.del {l l' : LinkedList Ptr} (removed : l.del it = some l') (listed : (it,i) ∈ l.entries)
    (only : ∀ li, (li,i) ∈ l.entries → li = it) : Entry l l' i fun _ => False := by
  refine ⟨fun li io other => ?_,fun li => ?_⟩
  · simp [LinkedList.mem_del removed listed only,other]
  · simp [LinkedList.mem_del removed listed only]

theorem Relisted.intro (posted : Entry n.postedIos n'.postedIos i P) (pending : Entry n.pendingIos n'.pendingIos i Q)
    (isPosted : ∀ li, P li ↔ new = .posted node li) (isPending : ∀ li, Q li ↔ ∃ t, new = .pending node li t) :
    Relisted n n' i node new :=
  ⟨posted.others,pending.others,fun li => (posted.own li).trans (isPosted li),
    fun li => (pending.own li).trans (isPending li)⟩

/-- A node whose lists do not change and do not carry the io, neither before nor after. -/
theorem Placed.elsewhere {b : Base} (placed : Placed b status) (cell : b.nodeMem.cell p = some n)
    (before : ∀ li, status i ≠ some (.posted p li)) (before' : ∀ li t, status i ≠ some (.pending p li t))
    (after : ∀ li, new ≠ .posted p li) (after' : ∀ li t, new ≠ .pending p li t) : Relisted n n i p new := by
  refine .intro (.same fun li member => before li ((placed.posted p n cell li i).mp member))
    (.same fun li member => ?_) (fun li => by simp [after li]) (fun li => by simp [after' li])
  obtain ⟨t,status'⟩ := (placed.pending p n cell li i).mp member
  exact before' li t status'

/-- A step that moves no io. -/
theorem Placed.frame {b b' : Base} (placed : Placed b status)
    (nodes : ∀ p n', b'.nodeMem.cell p = some n' →
      (∃ n, b.nodeMem.cell p = some n ∧ n'.postedIos.entries = n.postedIos.entries ∧
        n'.pendingIos.entries = n.pendingIos.entries) ∨
      b.nodeMem.cell p = none ∧ n'.postedIos.entries = [] ∧ n'.pendingIos.entries = [])
    (live : ∀ p n, b.nodeMem.cell p = some n → ∃ n', b'.nodeMem.cell p = some n')
    (ios : ∀ io r, b.ioMem.cell io = some r → ∃ r', b'.ioMem.cell io = some r' ∧ r'.node = r.node ∧
      r'.flags = r.flags ∧ r'.retryMs = r.retryMs ∧ r'.timer = r.timer)
    (gone : ∀ io, io < b.ioMem.next → b.ioMem.cell io = none → b'.ioMem.cell io = none)
    (next : b.ioMem.next ≤ b'.ioMem.next) (tailed : Tailed b'.timers)
    (timers : ∀ t, t ∈ timersOf b'.timers ↔ t ∈ timersOf b.timers)
    (kept : ∀ t, designated b'.timers t = designated b.timers t)
    (accepted : ∀ io, (∃ node r, .posted node io r ∈ b'.trace) ↔ ∃ node r, .posted node io r ∈ b.trace) :
    Placed b' status := by
  refine ⟨?_,?_,?_,?_,tailed,?_,placed.owner,?_⟩
  · intro p n' cell' li io
    rcases nodes p n' cell' with ⟨n,cell,posted,_⟩ | ⟨fresh,posted,_⟩
    · rw [posted]
      exact placed.posted p n cell li io
    · rw [posted]
      refine ⟨fun member => by simp at member,fun status' => ?_⟩
      obtain ⟨⟨n,cell⟩,_⟩ := placed.held io _ status'
      simp [fresh] at cell
  · intro p n' cell' li io
    rcases nodes p n' cell' with ⟨n,cell,_,pending⟩ | ⟨fresh,_,pending⟩
    · rw [pending]
      exact placed.pending p n cell li io
    · rw [pending]
      refine ⟨fun member => by simp at member,fun ⟨t,status'⟩ => ?_⟩
      obtain ⟨⟨n,cell⟩,_⟩ := placed.held io _ status'
      simp [fresh] at cell
  · intro io s status'
    have before := placed.held io s status'
    cases s with
    | posted p li =>
      obtain ⟨⟨n,cell⟩,r,ioCell,own,wait⟩ := before
      obtain ⟨r',ioCell',own',flags,ms,_⟩ := ios io r ioCell
      refine ⟨live p n cell,r',ioCell',own'.trans own,fun waits => ms.trans (wait ?_)⟩
      rwa [BanoIo.waits,flags] at waits
    | pending p li t =>
      obtain ⟨⟨n,cell⟩,data,r,ioCell,own,waits,wait,timer⟩ := before
      obtain ⟨r',ioCell',own',flags,ms,timer'⟩ := ios io r ioCell
      refine ⟨live p n cell,(kept t).trans data,r',ioCell',own'.trans own,?_,ms.trans wait,timer'.trans timer⟩
      rwa [BanoIo.waits,flags]
    | taken t =>
      obtain ⟨r,ioCell,timer⟩ := before
      obtain ⟨r',ioCell',_,_,_,timer'⟩ := ios io r ioCell
      exact ⟨r',ioCell',timer'.trans timer⟩
    | released => exact gone io (placed.fresh io _ status') before
  · exact fun io s status' => Nat.lt_of_lt_of_le (placed.fresh io s status') next
  · exact fun t => (timers t).trans (placed.timers t)
  · exact fun io => (placed.accepted io).trans (accepted io).symm

end Bano
