import Mathlib.Data.List.Infix
import Bano.Deadlines

/-! The wake-ups of select before the head timer is due. At each of them what remains is cut to whole milliseconds. -/
namespace Bano

open Lib

/-- What select leaves of a time after it slept for so many microseconds. -/
def Timeval.after (tv : Timeval) (usec : Nat) : Timeval :=
  let rest := tv.sec * 1000000 + tv.usec - usec
  ⟨rest / 1000000,rest % 1000000⟩

/-- A turn of the loop in which no timer expires. -/
def wakeUp (usec : Nat) (q : TimerQueue) : Option TimerQueue := do
  match ← banoTimerGetNext q with
  | none => some q
  | some (timer,tv) => banoTimerUpdate q timer (tv.after usec)

/-- What remains of the head timer. -/
def headMs (q : TimerQueue) : Option U32 := do
  let it ← q.list.head
  let k ← q.list.items.cell it
  let ti ← q.timers.cell k.data
  some ti.relMs

/-- Microseconds that begin count for a whole millisecond. -/
def countedMs (usec : Nat) : Nat := (usec + 999) / 1000

theorem Timeval.after_relMs (ms : U32) (usec : Nat) :
    (Timeval.relMs (Timeval.after ⟨ms.toNat / 1000,ms.toNat % 1000 * 1000⟩ usec)).toNat =
      ms.toNat - countedMs usec := by
  have bound := ms.isLt
  have rest : ms.toNat / 1000 * 1000000 + ms.toNat % 1000 * 1000 = ms.toNat * 1000 := by omega
  simp only [Timeval.after,Timeval.relMs,rest,countedMs,BitVec.toNat_add,BitVec.toNat_ofNat]
  omega

theorem wakeUp_headMs {q : TimerQueue} (armed : headMs q = some ms) (usec : Nat) :
    ∃ q' ms', wakeUp usec q = some q' ∧ headMs q' = some ms' ∧ ms'.toNat = ms.toNat - countedMs usec := by
  obtain ⟨it,head,armed⟩ := Option.bind_eq_some_iff.mp armed
  obtain ⟨k,cell,armed⟩ := Option.bind_eq_some_iff.mp armed
  obtain ⟨ti,live,same⟩ := Option.bind_eq_some_iff.mp armed
  obtain rfl := Option.some.inj same
  have left := Timeval.after_relMs ti.relMs usec
  let ms' := Timeval.relMs (Timeval.after ⟨ti.relMs.toNat / 1000,ti.relMs.toNat % 1000 * 1000⟩ usec)
  refine ⟨⟨q.list,q.timers.modify k.data fun ti => { ti with relMs := ms' }⟩,ms',?_,?_,left⟩
  · simp [wakeUp,banoTimerGetNext,head,cell,live,banoTimerUpdate,Heap.update_live live,ms']
  · simp [headMs,head,cell,live]

/-- Each wake-up takes what it counts. -/
theorem wakeUps_headMs {q : TimerQueue} (armed : headMs q = some ms) (wakes : List Nat) :
    ∃ q' ms', run wakeUp wakes q = some q' ∧ headMs q' = some ms' ∧
      ms'.toNat = ms.toNat - (wakes.map countedMs).sum := by
  induction wakes generalizing q ms with
  | nil => exact ⟨q,ms,rfl,armed,by simp⟩
  | cons usec wakes ih =>
    obtain ⟨mid,ms',woken,armed',left⟩ := wakeUp_headMs armed usec
    obtain ⟨q',ms'',ran,armed'',left'⟩ := ih armed'
    refine ⟨q',ms'',by simp [run,woken,ran],armed'',?_⟩
    rw [left',left,List.map_cons,List.sum_cons]
    omega

/-- After these wake-ups the head timer is not a millisecond early, or more. -/
theorem fires_after {q : TimerQueue} (armed : headMs q = some ms) (wakes : List Nat) :
    (∀ q', run wakeUp wakes q = some q' → headMs q' = some 0 → ms.toNat * 1000 < wakes.sum + 1000) ↔
    (ms.toNat ≤ (wakes.map countedMs).sum → ms.toNat * 1000 < wakes.sum + 1000) := by
  obtain ⟨q',ms',ran,armed',left⟩ := wakeUps_headMs armed wakes
  constructor
  · intro early reached
    refine early q' ran (armed'.trans (congrArg some (BitVec.eq_of_toNat_eq ?_)))
    rw [left]
    exact Nat.sub_eq_zero_of_le reached
  · intro inTime q'' ran' fired
    obtain rfl := Option.some.inj (ran.symm.trans ran')
    obtain rfl := Option.some.inj (armed'.symm.trans fired)
    apply inTime
    simp at left
    omega

/-- At no wake-up the head timer is a millisecond early, or more, if and only if at none of them the
times that were slept, each counted in whole milliseconds, have reached it before they do. -/
theorem fires_iff {q : TimerQueue} (armed : headMs q = some ms) (wakes : List Nat) :
    (∀ slept, slept <+: wakes → ∀ q', run wakeUp slept q = some q' → headMs q' = some 0 →
      ms.toNat * 1000 < slept.sum + 1000) ↔
    (∀ slept, slept <+: wakes → ms.toNat ≤ (slept.map countedMs).sum → ms.toNat * 1000 < slept.sum + 1000) :=
  forall_congr' fun slept => imp_congr_right fun _ => fires_after armed slept

/-- Three milliseconds slept, and then two. -/
theorem fires_slept : ∃ q', run wakeUp [3000,2000] oneTimer = some q' ∧
    (headMs q' = some 0 → (5 : U32).toNat * 1000 < [3000,2000].sum + 1000) := by
  obtain ⟨q',_,ran,_⟩ := wakeUps_headMs (show headMs oneTimer = some 5 from rfl) [3000,2000]
  have inTime : ∀ slept ∈ [3000,2000].inits, (5 : U32).toNat ≤ (slept.map countedMs).sum →
      (5 : U32).toNat * 1000 < slept.sum + 1000 := by decide
  have all := (fires_iff (show headMs oneTimer = some 5 from rfl) [3000,2000]).mpr fun slept before =>
    inTime slept ((List.mem_inits _ _).mpr before)
  exact ⟨q',ran,all _ (List.prefix_refl _) q' ran⟩

/-- Five wake-ups after a microsecond each. -/
theorem fires_early : ¬∀ (q : TimerQueue) (ms : U32) (wakes : List Nat) (q' : TimerQueue), headMs q = some ms →
    run wakeUp wakes q = some q' → headMs q' = some 0 → ms.toNat * 1000 < wakes.sum + 1000 := by
  intro early
  obtain ⟨q',ran,fired⟩ : ∃ q', run wakeUp [1,1,1,1,1] oneTimer = some q' ∧ headMs q' = some 0 :=
    Option.bind_eq_some_iff.mp rfl
  exact absurd (early oneTimer 5 [1,1,1,1,1] q' rfl ran fired) (by decide)

end Bano
