import Mathlib.Data.List.Count
import Bano.Frames

/-! What the trace tells of each io: when its completion function was called and when it was
released. The ledger looks at the ios and the trace alone. -/
namespace Bano

open Lib

/-- The io an event is about. -/
def Event.io : Event → Option Ptr
  | .posted _ io _ => some io
  | .written _ io _ _ => some io
  | .answered io _ => some io
  | .completed io _ _ => some io
  | .released io => some io
  | _ => none

def Event.completes (io : Ptr) : Event → Bool
  | .completed i _ _ => i = io
  | _ => false

def completions (trace : List Event) (io : Ptr) : Nat := trace.countP (Event.completes io)

@[simp] theorem completions_append (trace es : List Event) (io : Ptr) :
    completions (trace ++ es) io = completions trace io + completions es io := List.countP_append

/-- A call without an error is owed to an answer, or to the write of a SET that waits for none. -/
def Excused (trace : List Event) (io : Ptr) (r : BanoIo) (err : U32) : Prop :=
  err ≠ 0 ∨ (∃ msg, .answered io msg ∈ trace) ∨
    r.waits = false ∧ r.msg.op = msgOpSet ∧ ∃ node addr frame, .written node io addr frame ∈ trace

/-- No release before one call of the completion function. -/
def Kept (trace : List Event) (io : Ptr) (r : BanoIo) : Prop :=
  ∀ front back, trace = front ++ .released io :: back →
    completions front io = 1 ∧ ∀ err val, .completed io err val ∈ front → Excused front io r err

/-- `busy` is an io that was completed and is about to be released. -/
structure Ledger (ioMem : Heap BanoIo) (trace : List Event) (busy : Option Ptr) : Prop where
  fresh : ∀ e ∈ trace, ∀ io, e.io = some io → io < ioMem.next
  live : ∀ node io r, .posted node io r ∈ trace → ∀ r', ioMem.cell io = some r' →
    r'.complFn = r.complFn ∧ r'.flags = r.flags ∧ r'.msg = r.msg ∧ r'.node = some node
  set : ∀ node io r, .posted node io r ∈ trace → r.waits = false → r.msg.op = msgOpSet
  uncalled : ∀ io r, ioMem.cell io = some r → busy ≠ some io → completions trace io = 0
  called : ∀ io, busy = some io → ∀ node r, .posted node io r ∈ trace →
    completions trace io = (if r.complFn.isSome then 1 else 0) ∧
      ∀ err val, .completed io err val ∈ trace → Excused trace io r err
  gone : ∀ node io r, .posted node io r ∈ trace → ioMem.cell io = none →
    completions trace io = if r.complFn.isSome then 1 else 0
  kept : ∀ node io r, .posted node io r ∈ trace → r.complFn.isSome → Kept trace io r
  busyLive : ∀ io, busy = some io → ∃ r, ioMem.cell io = some r

theorem completions_fresh (fresh : ∀ e ∈ trace, ∀ io, Event.io e = some io → io < next) :
    completions trace next = 0 := by
  apply List.countP_eq_zero.mpr
  intro e member completes
  cases e with
  | completed i err val =>
    simp only [Event.completes,decide_eq_true_eq] at completes
    exact Nat.lt_irrefl _ (completes ▸ fresh _ member i rfl)
  | _ => simp [Event.completes] at completes

theorem Excused.append (excused : Excused trace io r err) (es : List Event) : Excused (trace ++ es) io r err := by
  rcases excused with failed | ⟨msg,answered⟩ | ⟨unacked,set,node,addr,frame,written⟩
  · exact .inl failed
  · exact .inr (.inl ⟨msg,List.mem_append_left _ answered⟩)
  · exact .inr (.inr ⟨unacked,set,node,addr,frame,List.mem_append_left _ written⟩)

/-- Only the release of the io itself counts. -/
theorem Kept.append (kept : Kept trace io r) (other : .released io ∉ es) : Kept (trace ++ es) io r := by
  intro front back split
  rcases List.append_eq_append_iff.mp split with ⟨more,rfl,late⟩ | ⟨more,rfl,late⟩
  · exact (other (by rw [late]; simp)).elim
  · cases more with
    | nil => exact (other (by rw [← show _ = es from late]; simp)).elim
    | cons e more =>
      obtain ⟨rfl,_⟩ := List.cons.inj late
      exact kept front more rfl

theorem Kept.concat (kept : Kept trace io r) (once : completions trace io = 1)
    (excused : ∀ err val, .completed io err val ∈ trace → Excused trace io r err) :
    Kept (trace ++ [.released io]) io r := by
  intro front back split
  rcases List.append_eq_append_iff.mp split with ⟨more,rfl,late⟩ | ⟨more,rfl,late⟩
  · cases more with
    | nil => simpa using ⟨once,excused⟩
    | cons e more => simp at late
  · cases more with
    | nil =>
      rw [List.append_nil] at once excused
      exact ⟨once,excused⟩
    | cons e more =>
      obtain ⟨rfl,_⟩ := List.cons.inj late
      exact kept front more rfl

/-- An event that neither accepts, completes nor releases an io. -/
def Event.passive : Event → Bool
  | .posted .. => false
  | .completed .. => false
  | .released .. => false
  | _ => true

theorem completions_passive (passive : ∀ e ∈ es, Event.passive e = true) (io : Ptr) : completions es io = 0 := by
  apply List.countP_eq_zero.mpr
  intro e member completes
  have quiet := passive e member
  cases e <;> simp [Event.passive,Event.completes] at quiet completes

theorem mem_passive {trace es : List Event} (passive : ∀ e ∈ es, Event.passive e = true) (e : Event)
    (active : e.passive = false) : e ∈ trace ++ es ↔ e ∈ trace := by
  rw [List.mem_append,or_iff_left]
  intro member
  simp [passive e member] at active

theorem Ledger.passive (ledger : Ledger ioMem trace busy) (passive : ∀ e ∈ es, Event.passive e = true)
    (known : ∀ e ∈ es, ∀ io, Event.io e = some io → io < ioMem.next) : Ledger ioMem (trace ++ es) busy := by
  have posted : ∀ node io r, .posted node io r ∈ trace ++ es ↔ .posted node io r ∈ trace :=
    fun _ _ _ => mem_passive passive _ rfl
  have completed : ∀ io err val, .completed io err val ∈ trace ++ es ↔ .completed io err val ∈ trace :=
    fun _ _ _ => mem_passive passive _ rfl
  have released : ∀ io, .released io ∉ es := by
    intro io member
    simpa [Event.passive] using passive _ member
  have count : ∀ io, completions (trace ++ es) io = completions trace io := by
    intro io
    rw [completions_append,completions_passive passive,Nat.add_zero]
  refine ⟨?_,?_,?_,?_,?_,?_,?_,ledger.busyLive⟩
  · intro e member io about
    rcases List.mem_append.mp member with early | late
    · exact ledger.fresh e early io about
    · exact known e late io about
  · exact fun node io r member => ledger.live node io r ((posted _ _ _).mp member)
  · exact fun node io r member => ledger.set node io r ((posted _ _ _).mp member)
  · exact fun io r cell other => (count io).trans (ledger.uncalled io r cell other)
  · intro io same node r member
    obtain ⟨once,excused⟩ := ledger.called io same node r ((posted _ _ _).mp member)
    exact ⟨(count io).trans once,fun err val called =>
      (excused err val ((completed _ _ _).mp called)).append _⟩
  · exact fun node io r member cell => (count io).trans (ledger.gone node io r ((posted _ _ _).mp member) cell)
  · exact fun node io r member fn => (ledger.kept node io r ((posted _ _ _).mp member) fn).append (released io)

/-- Writing fields of an io that the ledger does not read. -/
theorem Ledger.modify (ledger : Ledger ioMem trace busy) (io : Ptr) (f : BanoIo → BanoIo)
    (keeps : ∀ r, ioMem.cell io = some r →
      (f r).complFn = r.complFn ∧ (f r).flags = r.flags ∧ (f r).msg = r.msg ∧ (f r).node = r.node) :
    Ledger (ioMem.modify io f) trace busy := by
  have cells : ∀ p r, (ioMem.modify io f).cell p = some r → ∃ r', ioMem.cell p = some r' ∧
      r.complFn = r'.complFn ∧ r.flags = r'.flags ∧ r.msg = r'.msg ∧ r.node = r'.node := by
    intro p r cell
    by_cases here : p = io
    · subst here
      rw [Heap.modify_cell_same] at cell
      obtain ⟨r',live,rfl⟩ := Option.map_eq_some_iff.mp cell
      exact ⟨r',live,keeps r' live⟩
    · exact ⟨r,by simpa [here] using cell,rfl,rfl,rfl,rfl⟩
  refine ⟨ledger.fresh,?_,ledger.set,?_,ledger.called,?_,ledger.kept,?_⟩
  · intro node p r member r' cell
    obtain ⟨r'',live,fn,flags,msg,own⟩ := cells p r' cell
    obtain ⟨fn',flags',msg',own'⟩ := ledger.live node p r member r'' live
    exact ⟨fn.trans fn',flags.trans flags',msg.trans msg',own.trans own'⟩
  · intro p r cell other
    obtain ⟨r',live,_⟩ := cells p r cell
    exact ledger.uncalled p r' live other
  · intro node p r member cell
    apply ledger.gone node p r member
    by_cases here : p = io
    · subst here
      simpa using cell
    · simpa [here] using cell
  · intro p same
    obtain ⟨r,live⟩ := ledger.busyLive p same
    by_cases here : p = io
    · subst here
      exact ⟨f r,by simp [live]⟩
    · exact ⟨r,by simp [here,live]⟩

theorem Ledger.accept (ledger : Ledger ioMem trace busy) (r : BanoIo) (own : r.node = some node)
    (set : r.waits = false → r.msg.op = msgOpSet) :
    Ledger (ioMem.alloc r) (trace ++ [.posted node ioMem.next r]) busy := by
  have posted : ∀ p io r', .posted p io r' ∈ trace ++ [.posted node ioMem.next r] →
      .posted p io r' ∈ trace ∧ io < ioMem.next ∨ p = node ∧ io = ioMem.next ∧ r' = r := by
    intro p io r' member
    rcases List.mem_append.mp member with early | late
    · exact .inl ⟨early,ledger.fresh _ early io rfl⟩
    · obtain ⟨rfl,rfl,rfl⟩ := Event.posted.inj (List.mem_singleton.mp late)
      exact .inr ⟨rfl,rfl,rfl⟩
  have completed : ∀ io err val, .completed io err val ∈ trace ++ [.posted node ioMem.next r] →
      .completed io err val ∈ trace := by
    intro io err val member
    simpa using member
  have count : ∀ io, completions (trace ++ [.posted node ioMem.next r]) io = completions trace io := by
    intro io
    rw [completions_append]
    rfl
  have none := completions_fresh ledger.fresh
  refine ⟨?_,?_,?_,?_,?_,?_,?_,?_⟩
  · intro e member io about
    rcases List.mem_append.mp member with early | late
    · exact Nat.lt_succ_of_lt (ledger.fresh e early io about)
    · obtain rfl := List.mem_singleton.mp late
      obtain rfl := Option.some.inj about
      exact Nat.lt_succ_self _
  · intro p io r' member r'' cell
    rcases posted p io r' member with ⟨early,old⟩ | ⟨rfl,rfl,rfl⟩
    · exact ledger.live p io r' early r'' (by rwa [Heap.alloc_cell_other (Nat.ne_of_lt old)] at cell)
    · rw [Heap.alloc_cell_next] at cell
      obtain rfl := Option.some.inj cell
      exact ⟨rfl,rfl,rfl,own⟩
  · intro p io r' member
    rcases posted p io r' member with ⟨early,_⟩ | ⟨_,_,rfl⟩
    · exact ledger.set p io r' early
    · exact set
  · intro io r' cell other
    rw [count]
    by_cases here : io = ioMem.next
    · exact here ▸ none
    · exact ledger.uncalled io r' (by rwa [Heap.alloc_cell_other here] at cell) other
  · intro io same p r' member
    rcases posted p io r' member with ⟨early,_⟩ | ⟨_,rfl,_⟩
    · obtain ⟨once,excused⟩ := ledger.called io same p r' early
      exact ⟨(count io).trans once,fun err val called => (excused err val (completed _ _ _ called)).append _⟩
    · obtain ⟨r,live⟩ := ledger.busyLive _ same
      simp at live
  · intro p io r' member cell
    rcases posted p io r' member with ⟨early,old⟩ | ⟨_,rfl,_⟩
    · exact (count io).trans (ledger.gone p io r' early (by rwa [Heap.alloc_cell_other (Nat.ne_of_lt old)] at cell))
    · simp at cell
  · intro p io r' member fn
    rcases posted p io r' member with ⟨early,_⟩ | ⟨_,rfl,_⟩
    · exact (ledger.kept p io r' early fn).append (by simp)
    · intro front back split
      have released : .released ioMem.next ∈ trace := by
        have member : .released ioMem.next ∈ trace ++ [.posted node ioMem.next r] := by rw [split]; simp
        simpa using member
      exact (Nat.lt_irrefl _ (ledger.fresh _ released _ rfl)).elim

  · intro io same
    obtain ⟨r',live⟩ := ledger.busyLive io same
    exact ⟨r',Heap.alloc_cell_live live r⟩

theorem Ledger.congr (ledger : Ledger ioMem trace busy) (cells : ∀ p, ioMem'.cell p = ioMem.cell p)
    (next : ioMem.next ≤ ioMem'.next) : Ledger ioMem' trace busy := by
  refine ⟨?_,?_,ledger.set,?_,ledger.called,?_,ledger.kept,?_⟩
  · exact fun e member io about => Nat.lt_of_lt_of_le (ledger.fresh e member io about) next
  · exact fun node io r member r' cell => ledger.live node io r member r' (cells io ▸ cell)
  · exact fun io r cell => ledger.uncalled io r (cells io ▸ cell)
  · exact fun node io r member cell => ledger.gone node io r member (cells io ▸ cell)
  · exact fun io same => cells io ▸ ledger.busyLive io same

/-- The completion function of a live io is called. -/
theorem Ledger.call (ledger : Ledger ioMem trace none) (cell : ioMem.cell io = some r) (fn : r.complFn.isSome)
    (excused : ∀ node r, .posted node io r ∈ trace → Excused trace io r err) :
    Ledger ioMem (trace ++ [.completed io err val]) (some io) := by
  have posted : ∀ p i r', .posted p i r' ∈ trace ++ [.completed io err val] → .posted p i r' ∈ trace := by simp
  have count : ∀ i, i ≠ io → completions (trace ++ [.completed io err val]) i = completions trace i := by
    intro i other
    rw [completions_append]
    simp [completions,Event.completes,other.symm]
  have once : completions (trace ++ [.completed io err val]) io = 1 := by
    rw [completions_append,ledger.uncalled io r cell (by simp)]
    simp [completions,Event.completes]
  have quiet : ∀ err' val', .completed io err' val' ∉ trace := by
    intro err' val' member
    have none := List.countP_eq_zero.mp (ledger.uncalled io r cell (by simp)) _ member
    simp [Event.completes] at none
  refine ⟨?_,?_,?_,?_,?_,?_,?_,?_⟩
  · intro e member i about
    rcases List.mem_append.mp member with early | late
    · exact ledger.fresh e early i about
    · obtain rfl := List.mem_singleton.mp late
      obtain rfl := Option.some.inj about
      exact Heap.lt_next cell
  · exact fun node i r' member => ledger.live node i r' (posted _ _ _ member)
  · exact fun node i r' member => ledger.set node i r' (posted _ _ _ member)
  · intro i r' live other
    have apart : i ≠ io := fun same => other (same ▸ rfl)
    exact (count i apart).trans (ledger.uncalled i r' live (by simp))
  · rintro i same node r' member
    obtain rfl := Option.some.inj same
    have early := posted _ _ _ member
    have same := (ledger.live node io r' early r cell).1
    rw [once,if_pos (same ▸ fn)]
    refine ⟨rfl,fun err' val' called => ?_⟩
    obtain ⟨rfl,rfl⟩ : err' = err ∧ val' = val := by simpa [quiet err' val'] using called
    exact (excused node r' early).append _
  · intro node i r' member missing
    have apart : i ≠ io := by
      rintro rfl
      simp [cell] at missing
    exact (count i apart).trans (ledger.gone node i r' (posted _ _ _ member) missing)
  · exact fun node i r' member called => (ledger.kept node i r' (posted _ _ _ member) called).append (by simp)
  · intro i same
    obtain rfl := Option.some.inj same
    exact ⟨r,cell⟩

/-- An io without a completion function. -/
theorem Ledger.skip (ledger : Ledger ioMem trace none) (cell : ioMem.cell io = some r) (silent : r.complFn = none) :
    Ledger ioMem trace (some io) := by
  have never := ledger.uncalled io r cell (by simp)
  refine ⟨ledger.fresh,ledger.live,ledger.set,?_,?_,ledger.gone,ledger.kept,?_⟩
  · exact fun i r' live _ => ledger.uncalled i r' live (by simp)
  · intro i same node r' member
    obtain rfl := Option.some.inj same
    have fn := (ledger.live node io r' member r cell).1
    rw [silent] at fn
    refine ⟨by rw [never,← fn]; rfl,fun err val called => ?_⟩
    have none := List.countP_eq_zero.mp never _ called
    simp [Event.completes] at none
  · intro i same
    obtain rfl := Option.some.inj same
    exact ⟨r,cell⟩

theorem Ledger.release (ledger : Ledger ioMem trace (some io)) :
    Ledger (ioMem.erase io) (trace ++ [.released io]) none := by
  have posted : ∀ p i r', .posted p i r' ∈ trace ++ [.released io] → .posted p i r' ∈ trace := by simp
  have count : ∀ i, completions (trace ++ [.released io]) i = completions trace i := by
    intro i
    rw [completions_append]
    rfl
  obtain ⟨r,cell⟩ := ledger.busyLive io rfl
  have cells : ∀ i r', (ioMem.erase io).cell i = some r' → i ≠ io ∧ ioMem.cell i = some r' := by
    intro i r' live
    by_cases here : i = io
    · simp [here] at live
    · exact ⟨here,by simpa [here] using live⟩
  refine ⟨?_,?_,?_,?_,by simp,?_,?_,by simp⟩
  · intro e member i about
    rcases List.mem_append.mp member with early | late
    · exact ledger.fresh e early i about
    · obtain rfl := List.mem_singleton.mp late
      obtain rfl := Option.some.inj about
      exact (Heap.lt_next cell : io < ioMem.next)
  · exact fun node i r' member r'' live => ledger.live node i r' (posted _ _ _ member) r'' (cells i r'' live).2
  · exact fun node i r' member => ledger.set node i r' (posted _ _ _ member)
  · intro i r' live _
    obtain ⟨other,live⟩ := cells i r' live
    exact (count i).trans (ledger.uncalled i r' live fun same => other (Option.some.inj same).symm)
  · intro node i r' member missing
    rw [count]
    by_cases here : i = io
    · subst here
      exact (ledger.called i rfl node r' (posted _ _ _ member)).1
    · exact ledger.gone node i r' (posted _ _ _ member) (by simpa [here] using missing)
  · intro node i r' member fn
    have early := posted _ _ _ member
    by_cases here : i = io
    · subst here
      obtain ⟨once,excused⟩ := ledger.called i rfl node r' early
      rw [if_pos fn] at once
      exact (ledger.kept node i r' early fn).concat once excused
    · exact (ledger.kept node i r' early fn).append (by simpa using here)

/-- Ios that no one waits for are released, as with their node. -/
theorem Ledger.discard {ios : List Ptr} (ledger : Ledger ioMem trace none)
    (live : ∀ io ∈ ios, ∃ r, ioMem.cell io = some r ∧ r.complFn = none) (apart : ios.Nodup)
    (cells : ∀ p, ioMem'.cell p = if p ∈ ios then none else ioMem.cell p) (next : ioMem.next ≤ ioMem'.next) :
    Ledger ioMem' (trace ++ ios.map .released) none := by
  induction ios generalizing ioMem trace with
  | nil => simpa using ledger.congr (by simpa using cells) next
  | cons io ios ih =>
    obtain ⟨outside,apart⟩ := List.nodup_cons.mp apart
    obtain ⟨r,cell,silent⟩ := live io List.mem_cons_self
    have others : ∀ i ∈ ios, ∃ r, (ioMem.erase io).cell i = some r ∧ r.complFn = none := by
      intro i member
      have other : i ≠ io := fun same => outside (same ▸ member)
      obtain ⟨r,cell,silent⟩ := live i (List.mem_cons_of_mem _ member)
      exact ⟨r,by simp [other,cell],silent⟩
    have rest := ih (ledger.skip cell silent).release others apart (by
      intro p
      rw [cells]
      by_cases here : p = io <;> by_cases there : p ∈ ios <;> simp [here,there]) next
    simpa using rest

end Bano
