import Bano.Expiry

/-! The converse: once the timer interrupts out of time, or another event is turned to while
timer_irq is set, no return tells the timer before timer_setup clears its flag. -/
namespace Bano

open Lib

/-- Only a node that polls gets here. -/
def Pc.asks : Pc → Bool
  | .stopTimer .ask | .setCounter .ask | .setMask .ask | .clearIrq .ask | .startTimer .ask | .waitMsg => true
  | _ => false

/-- bano_wait_event has not reached on_event. -/
def Pc.decides : Pc → Bool
  | .redoWait | .onEvent | .poll | .waitMsg | .ret => false
  | .loopMsg | .msgHandler | .loopTimer | .timerHandler | .loopPcint | .pcintHandler => false
  | _ => true

/-- bano_wait_event has turned to an event. -/
def Pc.turned : Pc → Bool
  | .disableRxIrq | .readPayload | .enableRxIrq | .takePcint | .onEvent | .poll | .ret => true
  | _ => false

/-- From the return to timer_setup. -/
def Pc.leaves : Pc → Bool
  | .loopMsg | .msgHandler | .loopTimer | .timerHandler | .loopPcint | .pcintHandler | .redoWait | .waitTimer => true
  | .stopTimer .wait | .setCounter .wait | .setMask .wait | .clearIrq .wait => true
  | _ => false

theorem Pc.unseen {pc : Pc} (unasked : pc.asks = false) (blind : pc.waits = false) :
    pc.turned = true ∨ pc.leaves = true := by
  revert unasked blind
  cases pc with
  | stopTimer call | setCounter call | setMask call | clearIrq call | startTimer call => cases call <;> decide
  | _ => decide

theorem Pc.turned_either {pc : Pc} (turned : pc.turned = true) : pc.returns = true ∨ pc.decides = true := by
  revert turned
  cases pc <;> simp [Pc.turned,Pc.returns,Pc.decides]

namespace Machine

/-- Up to on_event, ev tells no timer, and the next message is never asked for. -/
def Unasked (m : Machine ρ) : Prop := m.pc.asks = false ∧ (m.pc.decides = true → m.ev &&& evTimer = 0)

/-- An expiry that comes now is not returned. -/
def Missed (m : Machine ρ) : Prop := m.pc.turned = true ∧ m.ev &&& evTimer = 0 ∨ m.pc.leaves = true

theorem ev_other {ev other : U8} (silent : ev &&& evTimer = 0) (silent' : other &&& evTimer = 0) :
    (ev ||| other) &&& evTimer = 0 := by
  rw [BitVec.and_or_distrib_right,silent,silent']
  rfl

theorem statement_asks {m : Machine ρ} (unasked : m.pc.asks = false) (unpolled : c.wakes wakePoll = false)
    (taken : statement fw nrf c m = some m') : m'.pc.asks = false := by
  unfold Machine.statement at taken
  split at taken
  all_goals grind [goto,Pc.asks]

/-- Before on_event, ev is what it was when the wait began. -/
theorem statement_decides {m : Machine ρ} (unpolled : c.wakes wakePoll = false)
    (taken : statement fw nrf c m = some m')
    (decides : m'.pc.decides = true) : m'.ev = 0 ∨ m.pc.decides = true ∧ m'.ev = m.ev := by
  unfold Machine.statement at taken
  split at taken
  all_goals grind [goto,Pc.decides]

theorem Unasked.statement {m : Machine ρ} (unasked : m.Unasked) (unpolled : c.wakes wakePoll = false)
    (taken : statement fw nrf c m = some m') : m'.Unasked := by
  refine ⟨statement_asks unasked.1 unpolled taken,fun decides => ?_⟩
  rcases statement_decides unpolled taken decides with start | ⟨before,same⟩
  · rw [start]
    rfl
  · rw [same]
    exact unasked.2 before

/-- A node that misses an expiry returns no timer event before its next timer_setup. -/
theorem Missed.statement {m : Machine ρ} (missed : m.Missed) (timed : c.wakes (wakeTimer ||| wakePoll) = true)
    (unpolled : c.wakes wakePoll = false) (taken : statement fw nrf c m = some m') :
    ∃ es, m'.trace = m.trace ++ es ∧ (∀ ev, .returned ev ∈ es → ev &&& evTimer = 0) ∧
      (.setUp ∈ es ∨ m'.Missed) := by
  have quiet : m'.trace = m.trace → m'.Missed → ∃ es, m'.trace = m.trace ++ es ∧
      (∀ ev, .returned ev ∈ es → ev &&& evTimer = 0) ∧ (.setUp ∈ es ∨ m'.Missed) :=
    fun trace missed' => ⟨[],by simp [trace],by simp,.inr missed'⟩
  unfold Machine.statement at taken
  rcases missed with ⟨turned,silent⟩ | leaves
  · cases here : m.pc <;> simp only [here,Pc.turned,Bool.false_eq_true] at turned
    all_goals simp only [here] at taken
    case enableRxIrq | takePcint =>
      obtain rfl := Option.some.inj taken
      exact quiet rfl (.inl ⟨rfl,ev_other silent (by decide)⟩)
    case poll =>
      rw [if_neg (by simp [unpolled])] at taken
      obtain rfl := Option.some.inj taken
      exact quiet rfl (.inl ⟨rfl,silent⟩)
    case ret =>
      obtain rfl := Option.some.inj taken
      exact ⟨[.returned m.ev],rfl,by simpa using silent,.inr (.inr rfl)⟩
    all_goals
      obtain rfl := Option.some.inj taken
      exact quiet rfl (.inl ⟨rfl,silent⟩)
  · cases here : m.pc <;> simp only [here,Pc.leaves,Bool.false_eq_true] at leaves
    all_goals simp only [here] at taken
    case stopTimer call | setCounter call | setMask call =>
      cases call with
      | ask => exact nomatch leaves
      | wait =>
        obtain rfl := Option.some.inj taken
        exact quiet rfl (.inr rfl)
    case clearIrq call =>
      obtain rfl := Option.some.inj taken
      exact ⟨[.setUp],rfl,by simp,.inl (by simp)⟩
    case waitTimer =>
      rw [if_pos timed] at taken
      obtain rfl := Option.some.inj taken
      exact quiet rfl (.inr rfl)
    case redoWait =>
      obtain rfl := Option.some.inj taken
      exact quiet rfl (.inr rfl)
    case loopMsg | loopTimer | loopPcint =>
      split at taken <;> obtain rfl := Option.some.inj taken <;> exact quiet rfl (.inr rfl)
    all_goals exact nomatch taken

theorem answer_leaves {m : Machine ρ} (taken : answer fw nrf flags val m = some m') : m'.pc.asks = false ∧
    m'.pc.decides = false ∧ m'.pc.leaves = true ∧ m'.trace = m.trace := by
  unfold answer at taken
  split at taken
  all_goals grind [goto,Pc.leaves,Pc.asks,Pc.decides]

theorem Missed.step {m : Machine ρ} (missed : m.Missed) (timed : c.wakes (wakeTimer ||| wakePoll) = true)
    (unpolled : c.wakes wakePoll = false) (taken : step fw nrf c label m = some m') :
    ∃ es, m'.trace = m.trace ++ es ∧ (∀ ev, .returned ev ∈ es → ev &&& evTimer = 0) ∧
      (.setUp ∈ es ∨ m'.Missed) := by
  have quiet : m'.pc = m.pc → m'.ev = m.ev → m'.trace = m.trace → ∃ es, m'.trace = m.trace ++ es ∧
      (∀ ev, .returned ev ∈ es → ev &&& evTimer = 0) ∧ (.setUp ∈ es ∨ m'.Missed) := by
    intro pc ev trace
    refine ⟨[],by simp [trace],by simp,.inr ?_⟩
    unfold Missed
    rwa [pc,ev]
  cases step_moves taken with
  | statement _ taken => exact Missed.statement (m := { m with cpu := m.cpu.tick }) missed timed unpolled taken
  | handler => exact quiet rfl rfl rfl
  | answer _ taken =>
    obtain ⟨_,_,leaves,trace⟩ := answer_leaves taken
    exact ⟨[],by simp [trace],by simp,.inr (.inr leaves)⟩
  | @interrupt irq =>
    cases irq with
    | timer1CompA => exact ⟨[.expired],rfl,by simp,.inr missed⟩
    | pcint port => exact quiet rfl rfl rfl
  | compareMatch => exact quiet rfl rfl rfl
  | pinChange => exact quiet rfl rfl rfl
  | radio => exact quiet rfl rfl rfl

theorem Missed.run {m : Machine ρ} (missed : m.Missed) (timed : c.wakes (wakeTimer ||| wakePoll) = true)
    (unpolled : c.wakes wakePoll = false) (reach : Reach (Machine.step fw nrf c) (fun _ _ => True) m labels m') :
    ∃ early es, m'.trace = m.trace ++ early ++ es ∧ (∀ ev, .returned ev ∈ early → ev &&& evTimer = 0) ∧
      (.setUp ∈ early ∨ es = [] ∧ m'.Missed) := by
  induction reach with
  | start => exact ⟨[],[],by simp,by simp,.inr ⟨rfl,missed⟩⟩
  | next _ _ taken ih =>
    obtain ⟨early,es,trace,silent,so⟩ := ih
    rcases so with cleared | ⟨rfl,missed'⟩
    · obtain ⟨more,trace'⟩ := step_trace taken
      exact ⟨early,es ++ more,by rw [trace',trace,List.append_assoc],silent,.inl cleared⟩
    · obtain ⟨more,trace',silent',so⟩ := missed'.step timed unpolled taken
      refine ⟨early ++ more,[],by simp [trace',trace],?_,?_⟩
      · intro ev member
        exact (List.mem_append.mp member).elim (silent ev) (silent' ev)
      · exact so.imp (List.mem_append_right early) fun missed'' => ⟨rfl,missed''⟩

/-- Nothing that was told up to a timer_setup, or in all, returns the timer. -/
theorem not_answered (silent : ∀ ev, NodeEvent.returned ev ∈ early → ev &&& evTimer = 0)
    (so : .setUp ∈ early ∨ es = []) :
    ¬Answered (early ++ es) := by
  rintro ⟨front,ev,back,split,kept,timer⟩
  rcases List.append_eq_append_iff.mp split with ⟨mid,rfl,rest⟩ | ⟨mid,rfl,rest⟩
  · rcases so with cleared | rfl
    · exact kept (List.mem_append_left _ cleared)
    · simp at rest
  · cases mid with
    | nil =>
      rcases so with cleared | rfl
      · exact kept (by simpa using cleared)
      · simp at rest
    | cons e mid =>
      obtain ⟨rfl,_⟩ := List.cons.inj rest
      exact timer (silent ev (by simp))

theorem Unasked.step {m : Machine ρ} (unasked : m.Unasked) (unpolled : c.wakes wakePoll = false)
    (taken : step fw nrf c label m = some m') : m'.Unasked := by
  cases step_moves taken with
  | statement _ taken => exact Unasked.statement (m := { m with cpu := m.cpu.tick }) unasked unpolled taken
  | answer _ taken =>
    obtain ⟨asks,decides,_⟩ := answer_leaves taken
    exact ⟨asks,by simp [decides]⟩
  | @interrupt irq => cases irq <;> exact unasked
  | handler => exact unasked
  | compareMatch => exact unasked
  | pinChange => exact unasked
  | radio => exact unasked

theorem Unasked.missed {m : Machine ρ} (unasked : m.Unasked) (blind : ¬m.Looks) : m.Missed := by
  obtain ⟨unasked,silent⟩ := unasked
  simp only [Looks,not_or,not_and,not_not,Bool.not_eq_true] at blind
  refine (Pc.unseen unasked blind.1).imp (fun turned => ⟨turned,?_⟩) id
  exact (Pc.turned_either turned).elim blind.2 silent

theorem pcintSetupPort_pc (port : Port) (mask : U8) (m : Machine ρ) : (pcintSetupPort port mask m).pc = m.pc := by
  unfold pcintSetupPort
  split <;> rfl

theorem start_pc (info : BanoInfo) (junk : BanoMsg) (radio : ρ) : (start info junk radio).pc = .redoWait := by
  have early : (if info.wakeMask &&& wakeMsg ≠ 0 then (reset junk radio).nrfSetupRxIrq else
      reset junk radio).pc = .redoWait := by
    split <;> rfl
  unfold start banoInit
  dsimp only
  split
  · simpa only [pcintSetup,pcintSetupPort_pc] using early
  · exact early

/-- Turning to a message or a pin change leaves the timer behind. -/
theorem Unasked.turns {m : Machine ρ} (unasked : m.Unasked) (turns : m.turns nrf c = true)
    (taken : Machine.statement fw nrf c m = some m') : m'.Missed ∧ m'.trace = m.trace := by
  unfold Machine.turns at turns
  unfold Machine.statement at taken
  split at turns
  · next here =>
    simp only [Bool.and_eq_true] at turns
    simp only [here,turns.1,turns.2,if_true] at taken
    obtain rfl := Option.some.inj taken
    exact ⟨.inl ⟨rfl,unasked.2 (by rw [here]; rfl)⟩,rfl⟩
  · next here =>
    simp only [here,turns,if_true] at taken
    obtain rfl := Option.some.inj taken
    exact ⟨.inl ⟨rfl,unasked.2 (by rw [here]; rfl)⟩,rfl⟩
  · exact nomatch turns

/-- Once a step is not timely, no return tells the timer before timer_setup clears its flag. -/
theorem untimely_unanswered (fw : Firmware) (nrf : NrfLib ρ) (fCpu : U32) (info : BanoInfo)
    (junk : BanoMsg) (radio : ρ)
    (timer : info.wakeMask &&& wakeTimer ≠ 0) (poll : info.wakeMask &&& wakePoll = 0)
    (ran : Lib.run (step fw nrf (captureInfo fCpu info)) front (start info junk radio) = some m)
    (untimely : ¬Timely nrf (captureInfo fCpu info) label m)
    (ran' : Lib.run (step fw nrf (captureInfo fCpu info)) (label :: back) m = some m') :
    ∃ es, m'.trace = m.trace ++ es ∧ ¬Answered es := by
  have timed := wakes_either timer fCpu
  have unpolled : (captureInfo fCpu info).wakes wakePoll = false := by simpa [captureInfo,Captured.wakes] using poll
  have reach : Reach (step fw nrf (captureInfo fCpu info)) (fun _ _ => True) (start info junk radio) front m :=
    .of_run (by simp) ran
  have unasked : m.Unasked := by
    refine reach.invariant Unasked ?_ fun _ _ _ unasked _ taken => unasked.step unpolled taken
    have pc : (start info junk radio).pc = .redoWait := start_pc info junk radio
    exact ⟨by rw [pc]; rfl,by simp [pc,Pc.decides]⟩
  obtain ⟨next,taken,after⟩ := Option.bind_eq_some_iff.mp ran'
  obtain ⟨first,missed,trace,silent⟩ : ∃ first, next.Missed ∧ next.trace = m.trace ++ first ∧
      ∀ ev, .returned ev ∈ first → ev &&& evTimer = 0 := by
    cases step_moves taken with
    | statement _ taken =>
      obtain ⟨missed,trace⟩ := Unasked.turns (m := { m with cpu := m.cpu.tick }) unasked
        (Classical.not_imp.mp untimely).1 taken
      exact ⟨[],missed,by simp [trace],by simp⟩
    | @interrupt irq =>
      cases irq with
      | timer1CompA => exact ⟨[.expired],unasked.missed untimely,rfl,by simp⟩
      | pcint port => exact absurd trivial untimely
    | handler => exact absurd trivial untimely
    | answer => exact absurd trivial untimely
    | compareMatch => exact absurd trivial untimely
    | pinChange => exact absurd trivial untimely
    | radio => exact absurd trivial untimely
  obtain ⟨early,es,trace',silent',so⟩ := missed.run timed unpolled (.of_run (by simp) after)
  refine ⟨(first ++ early) ++ es,by simp [trace',trace],
    not_answered ?_ (so.imp (List.mem_append_right first) And.left)⟩
  intro ev member
  exact (List.mem_append.mp member).elim (silent ev) (silent' ev)

end Machine
end Bano
