import Bano.Sleep

/-! What becomes of a timer expiry. It is returned as long as bano_wait_event looks at timer_irq; what
comes while it turns to another event, or out of it, is cleared by the next timer_setup. -/
namespace Bano

open Lib

/-- bano_wait_event has cleared timer_irq in timer_setup, and has not turned to another event. -/
def Pc.waits : Pc → Bool
  | .startTimer .wait | .setRxMode => true
  | .sleepDisable | .testTimer | .takeTimer | .testMsg | .testPcint | .sleepEnable | .cli | .lastTimer | .lastMsg
  | .lastPcint | .sei | .seiSleep | .sleepCpu => true
  | _ => false

def Pc.returns : Pc → Bool
  | .onEvent | .poll | .ret => true
  | _ => false

theorem Pc.returns_untested {pc : Pc} (returns : pc.returns = true) : pc.timerTested = false := by
  revert returns
  cases pc <;> simp [Pc.returns,Pc.timerTested]

/-- How many statements a flagged timer is from its return. -/
def Pc.left : Pc → Nat
  | .ret => 1
  | .poll => 2
  | .onEvent => 3
  | .takeTimer => 4
  | .testTimer => 5
  | .sleepDisable => 6
  | .setRxMode | .sei => 7
  | .startTimer _ | .lastTimer => 8
  | .cli => 9
  | .sleepEnable => 10
  | .testPcint => 11
  | .testMsg => 12
  | _ => 0

def NodeLabel.isCpu : NodeLabel ρ → Bool
  | .cpu => true
  | _ => false

/-- The timer event is returned before timer_setup clears its flag. -/
def Answered (es : List NodeEvent) : Prop :=
  ∃ early ev late, es = early ++ .returned ev :: late ∧ .setUp ∉ early ∧ ev &&& evTimer ≠ 0

theorem Answered.append (answered : Answered es) (more : List NodeEvent) : Answered (es ++ more) := by
  obtain ⟨early,ev,late,rfl,kept,timer⟩ := answered
  exact ⟨early,ev,late ++ more,by simp,kept,timer⟩

theorem Answered.later (answered : Answered es) (kept : .setUp ∉ before) : Answered (before ++ es) := by
  obtain ⟨early,ev,late,rfl,kept',timer⟩ := answered
  exact ⟨before ++ early,ev,late,by simp,by simp [kept,kept'],timer⟩

namespace Machine

/-- timer_irq is still looked at, or was. -/
def Looks (m : Machine ρ) : Prop := m.pc.waits = true ∨ m.pc.returns = true ∧ m.ev &&& evTimer ≠ 0

/-- An expiry will be returned. -/
def Heeded (m : Machine ρ) : Prop := m.pc.waits = true ∧ m.timerIrq = true ∨ m.pc.returns = true ∧
    m.ev &&& evTimer ≠ 0

/-- The next statement turns to a message or a pin change. -/
def turns (nrf : NrfLib ρ) (c : Captured) (m : Machine ρ) : Bool :=
  match m.pc with
  | .testMsg => c.wakes wakeMsg && (nrf.getRxIrq m.radio).1
  | .testPcint => c.wakes wakePcint && m.pcintIrq
  | _ => false

/-- The timer interrupts only while timer_irq is looked at, and another event is turned to only while it is clear. -/
def Timely (nrf : NrfLib ρ) (c : Captured) : NodeLabel ρ → Machine ρ → Prop
  | .interrupt .timer1CompA, m => m.Looks
  | .cpu, m => m.turns nrf c = true → m.timerIrq = false
  | _, _ => True

instance (m : Machine ρ) : Decidable m.Looks := inferInstanceAs (Decidable (_ ∨ _ ∧ _))

instance (nrf : NrfLib ρ) (c : Captured) : (label : NodeLabel ρ) → (m : Machine ρ) → Decidable (Timely nrf c label m)
  | .interrupt .timer1CompA, m => inferInstanceAs (Decidable m.Looks)
  | .cpu, m => inferInstanceAs (Decidable (m.turns nrf c = true → m.timerIrq = false))
  | .interrupt (.pcint _), _ | .handler _ _, _ | .answer _ _, _ => .isTrue trivial
  | .compareMatch, _ | .pinChange _ _, _ | .radio _ _, _ => .isTrue trivial

theorem Heeded.awake {m : Machine ρ} (heeded : m.Heeded) (watchful : m.Watchful nrf c)
    (timed : c.wakes (wakeTimer ||| wakePoll) = true) : m.cpu.asleep = false ∧ m.pc.timerTested = false := by
  rcases heeded with ⟨waits,flag⟩ | ⟨returns,_⟩
  · have unseen : ¬(m.pc.timerTested = true ∨ m.cpu.asleep = true) := fun seen =>
      nomatch flag.symm.trans (watchful.timer seen timed)
    simpa [and_comm] using unseen
  · constructor
    · cases asleep : m.cpu.asleep with
      | false => rfl
      | true => simp [(watchful.asleep asleep).1,Pc.returns] at returns
    · exact Pc.returns_untested returns

theorem statement_isSome {m : Machine ρ} (outside : m.pc.isHandler = false) (fw : Firmware)
    (nrf : NrfLib ρ) (c : Captured) :
    (statement fw nrf c m).isSome = true := by
  unfold statement
  split
  all_goals grind [Pc.isHandler]

theorem ev_timer (ev : U8) : (ev ||| evTimer) &&& evTimer ≠ 0 := by
  have absorbed : (ev ||| evTimer) &&& evTimer = evTimer := by
    ext i
    simp +contextual
  rw [absorbed]
  decide

/-- While the flag is set, the wait goes on to take it. -/
theorem waits_statement {m : Machine ρ} (waits : m.pc.waits = true) (flag : m.timerIrq = true)
    (untested : m.pc.timerTested = false) (timed : c.wakes (wakeTimer ||| wakePoll) = true)
    (timely : m.turns nrf c = true → m.timerIrq = false) (taken : statement fw nrf c m = some m') :
    ∃ es, m'.trace = m.trace ++ es ∧ .setUp ∉ es ∧ m'.Heeded ∧ m'.pc.left + 1 ≤ m.pc.left := by
  have stays : m.turns nrf c = false := by simpa [flag] using timely
  unfold Machine.statement at taken
  cases here : m.pc <;> simp only [here,Pc.waits,Pc.timerTested,Bool.false_eq_true,reduceCtorEq] at waits untested
  all_goals simp only [here] at taken
  case takeTimer =>
    obtain rfl := Option.some.inj taken
    exact ⟨[.taken],rfl,by simp,.inr ⟨rfl,ev_timer m.ev⟩,by simp [Pc.left]⟩
  case startTimer call =>
    cases call with
    | ask => cases waits
    | wait =>
      obtain rfl := Option.some.inj taken
      exact ⟨[],by simp,by simp,.inl ⟨rfl,flag⟩,by simp [Pc.left]⟩
  case testTimer | lastTimer =>
    rw [if_pos (by simp [timed,flag])] at taken
    obtain rfl := Option.some.inj taken
    exact ⟨[],by simp [goto],by simp,.inl ⟨rfl,flag⟩,by simp [goto,Pc.left]⟩
  case testMsg =>
    split at taken
    · next wakes =>
      have none : (nrf.getRxIrq m.radio).1 = false := by simpa [turns,here,wakes] using stays
      obtain rfl := Option.some.inj taken
      exact ⟨[],by simp,by simp,.inl ⟨by simp [none,Pc.waits],flag⟩,by simp [none,Pc.left]⟩
    · obtain rfl := Option.some.inj taken
      exact ⟨[],by simp [goto],by simp,.inl ⟨rfl,flag⟩,by simp [goto,Pc.left]⟩
  case testPcint =>
    have none : (c.wakes wakePcint && m.pcintIrq) = false := by simpa [turns,here] using stays
    rw [none] at taken
    obtain rfl := Option.some.inj taken
    exact ⟨[],by simp [goto],by simp,.inl ⟨rfl,flag⟩,by simp [goto,Pc.left]⟩
  all_goals
    obtain rfl := Option.some.inj taken
    exact ⟨[],by simp,by simp,.inl ⟨rfl,flag⟩,by simp [Pc.left]⟩

/-- From on_event on, the event is returned. -/
theorem returns_statement {m : Machine ρ} (returns : m.pc.returns = true) (timer : m.ev &&& evTimer ≠ 0)
    (unpolled : c.wakes wakePoll = false) (taken : statement fw nrf c m = some m') :
    ∃ es, m'.trace = m.trace ++ es ∧ (Answered es ∨ .setUp ∉ es ∧ m'.Heeded ∧ m'.pc.left + 1 ≤ m.pc.left) := by
  unfold Machine.statement at taken
  cases here : m.pc <;> simp only [here,Pc.returns,Bool.false_eq_true] at returns
  all_goals simp only [here] at taken
  case onEvent =>
    obtain rfl := Option.some.inj taken
    exact ⟨[],by simp,.inr ⟨by simp,.inr ⟨rfl,timer⟩,by simp [Pc.left]⟩⟩
  case poll =>
    rw [if_neg (by simp [unpolled])] at taken
    obtain rfl := Option.some.inj taken
    exact ⟨[],by simp [goto],.inr ⟨by simp,.inr ⟨rfl,timer⟩,by simp [goto,Pc.left]⟩⟩
  case ret =>
    obtain rfl := Option.some.inj taken
    exact ⟨[.returned m.ev],rfl,.inl ⟨[],m.ev,[],rfl,by simp,timer⟩⟩

theorem Heeded.outside {m : Machine ρ} (heeded : m.Heeded) : m.pc.isHandler = false := by
  have ahead : m.pc.waits = true ∨ m.pc.returns = true := heeded.imp And.left And.left
  revert ahead
  cases m.pc <;> simp [Pc.waits,Pc.returns,Pc.isHandler]

theorem left_le (pc : Pc) : pc.left ≤ 12 := by
  cases pc <;> simp [Pc.left]

theorem left_pos {pc : Pc} (ahead : pc.waits = true ∧ pc.timerTested = false ∨ pc.returns = true) : 1 ≤ pc.left := by
  revert ahead
  cases pc <;> simp [Pc.waits,Pc.timerTested,Pc.returns,Pc.left]

theorem Heeded.left {m : Machine ρ} (heeded : m.Heeded) (untested : m.pc.timerTested = false) : 1 ≤ m.pc.left :=
  left_pos (heeded.imp (fun waits => ⟨waits.1,untested⟩) And.left)

/-- A step that is no statement and serves no timer interrupt keeps what an expiry needs. -/
theorem Heeded.keep {m m' : Machine ρ} (heeded : m.Heeded) (pc : m'.pc = m.pc) (ev : m'.ev = m.ev)
    (timerIrq : m'.timerIrq = m.timerIrq) : m'.Heeded := by
  unfold Heeded
  rwa [pc,ev,timerIrq]

theorem Looks.heeded {m m' : Machine ρ} (looks : m.Looks) (pc : m'.pc = m.pc) (ev : m'.ev = m.ev)
    (flag : m'.timerIrq = true) : m'.Heeded := by
  unfold Heeded
  rw [pc,ev]
  exact looks.imp (fun waits => ⟨waits,flag⟩) id

theorem Heeded.step {m : Machine ρ} (heeded : m.Heeded) (watchful : m.Watchful nrf c)
    (timed : c.wakes (wakeTimer ||| wakePoll) = true) (unpolled : c.wakes wakePoll = false)
    (timely : Timely nrf c label m)
    (taken : step fw nrf c label m = some m') :
    ∃ es, m'.trace = m.trace ++ es ∧
      (Answered es ∨ .setUp ∉ es ∧ m'.Heeded ∧ m'.pc.left + [label].countP NodeLabel.isCpu ≤ m.pc.left) := by
  have quiet : m'.pc = m.pc → m'.ev = m.ev → m'.timerIrq = m.timerIrq → m'.trace = m.trace → label.isCpu = false →
      ∃ es, m'.trace = m.trace ++ es ∧
        (Answered es ∨ .setUp ∉ es ∧ m'.Heeded ∧ m'.pc.left + [label].countP NodeLabel.isCpu ≤ m.pc.left) := by
    intro pc ev timerIrq trace other
    exact ⟨[],by simp [trace],.inr ⟨by simp,heeded.keep pc ev timerIrq,by simp [pc,other]⟩⟩
  cases step_moves taken with
  | statement _ taken =>
    obtain ⟨_,untested⟩ := heeded.awake watchful timed
    rcases heeded with ⟨waits,flag⟩ | ⟨returns,timer⟩
    · obtain ⟨es,trace,kept,heeded',less⟩ :=
        waits_statement (m := { m with cpu := m.cpu.tick }) waits flag untested timed timely taken
      exact ⟨es,trace,.inr ⟨kept,heeded',less⟩⟩
    · exact returns_statement (m := { m with cpu := m.cpu.tick }) returns timer unpolled taken
  | handler _ runs => exact nomatch runs.symm.trans heeded.outside
  | answer _ taken =>
    obtain ⟨runs,_⟩ := answer_outside taken
    exact nomatch runs.symm.trans heeded.outside
  | @interrupt irq =>
    cases irq with
    | timer1CompA => exact ⟨[.expired],rfl,.inr ⟨by simp,Looks.heeded timely rfl rfl rfl,Nat.le_refl _⟩⟩
    | pcint port => exact quiet rfl rfl rfl rfl rfl
  | compareMatch => exact quiet rfl rfl rfl rfl rfl
  | pinChange => exact quiet rfl rfl rfl rfl rfl
  | radio => exact quiet rfl rfl rfl rfl rfl

theorem step_trace {m : Machine ρ} (taken : step fw nrf c label m = some m') : ∃ es, m'.trace = m.trace ++ es := by
  have same : m'.trace = m.trace → ∃ es, m'.trace = m.trace ++ es := fun same => ⟨[],by simp [same]⟩
  cases step_moves taken with
  | statement _ taken =>
    unfold statement at taken
    split at taken
    all_goals grind [goto]
  | handler => exact same rfl
  | answer _ taken =>
    unfold answer at taken
    split at taken
    all_goals grind [goto]
  | @interrupt irq =>
    cases irq with
    | timer1CompA => exact ⟨[.expired],rfl⟩
    | pcint port => exact same rfl
  | compareMatch => exact same rfl
  | pinChange => exact same rfl
  | radio => exact same rfl

/-- From an expiry that is heeded, each statement comes nearer to the return. -/
theorem Heeded.run {m : Machine ρ} (heeded : m.Heeded) (watchful : m.Watchful nrf c)
    (timed : c.wakes (wakeTimer ||| wakePoll) = true) (unpolled : c.wakes wakePoll = false)
    (reach : Reach (Machine.step fw nrf c) (Timely nrf c) m labels m') :
    m'.Watchful nrf c ∧ ∃ es, m'.trace = m.trace ++ es ∧
      (Answered es ∨ .setUp ∉ es ∧ m'.Heeded ∧ m'.pc.left + labels.countP NodeLabel.isCpu ≤ m.pc.left) := by
  induction reach with
  | start => exact ⟨watchful,[],by simp,.inr ⟨by simp,heeded,Nat.le_refl _⟩⟩
  | next _ timely taken ih =>
    obtain ⟨watchful',es,trace,so⟩ := ih
    refine ⟨watchful'.step taken,?_⟩
    rcases so with answered | ⟨kept,heeded',less⟩
    · obtain ⟨more,trace'⟩ := step_trace taken
      exact ⟨es ++ more,by rw [trace',trace,List.append_assoc],.inl (answered.append more)⟩
    · obtain ⟨more,trace',so'⟩ := heeded'.step watchful' timed unpolled timely taken
      refine ⟨es ++ more,by rw [trace',trace,List.append_assoc],so'.imp (fun answered => answered.later kept) ?_⟩
      rintro ⟨kept',heeded'',less'⟩
      refine ⟨by simp [kept,kept'],heeded'',?_⟩
      rw [List.countP_append]
      omega

theorem wakes_either (timer : info.wakeMask &&& wakeTimer ≠ 0) (fCpu : U32) :
    (captureInfo fCpu info).wakes (wakeTimer ||| wakePoll) = true := by
  have apart : info.wakeMask &&& (wakeTimer ||| wakePoll) ≠ 0 := by
    intro none
    apply timer
    rw [show wakeTimer = (wakeTimer ||| wakePoll) &&& wakeTimer by decide,← BitVec.and_assoc,none]
    rfl
  simpa [captureInfo,Captured.wakes] using apart

/-- On a node that wakes on its timer, in every run whose steps are timely, each expiry is returned before
timer_setup clears it, at the latest by the twelfth statement; until then the CPU goes on. -/
theorem expiries_returned (fw : Firmware) (nrf : NrfLib ρ) (fCpu : U32) (info : BanoInfo) (junk : BanoMsg) (radio : ρ)
    (timer : info.wakeMask &&& wakeTimer ≠ 0) (poll : info.wakeMask &&& wakePoll = 0)
    (reach : Reach (step fw nrf (captureInfo fCpu info)) (Timely nrf (captureInfo fCpu info)) (start info junk radio)
      (front ++ .interrupt .timer1CompA :: back) m) :
    ∃ mid es, Lib.run (step fw nrf (captureInfo fCpu info)) (front ++ [.interrupt .timer1CompA])
    (start info junk radio) = some mid ∧
      m.trace = mid.trace ++ es ∧ (Answered es ∨ .setUp ∉ es ∧ back.countP NodeLabel.isCpu < 12 ∧
        (step fw nrf (captureInfo fCpu info) .cpu m).isSome = true) := by
  have timed := wakes_either timer fCpu
  have unpolled : (captureInfo fCpu info).wakes wakePoll = false := by simpa [captureInfo,Captured.wakes] using poll
  obtain ⟨m0,mid,before,timely,taken,after⟩ := reach.parted
  have watchful0 := before.invariant (fun m => m.Watchful nrf (captureInfo fCpu info))
    (start_watchful nrf fCpu info junk radio)
    fun _ _ _ watchful _ taken => watchful.step taken
  obtain ⟨cpu',_,rfl⟩ := bind_some.mp taken
  have heeded : (isr .timer1CompA { m0 with cpu := cpu' }).Heeded := Looks.heeded timely rfl rfl rfl
  obtain ⟨watchful,es,trace,so⟩ := heeded.run (watchful0.step taken) timed unpolled after
  refine ⟨_,es,(Reach.next before timely taken).run,trace,so.imp id ?_⟩
  rintro ⟨kept,heeded',less⟩
  have near : m0.pc.left ≤ 12 := left_le m0.pc
  have ahead : 1 ≤ m.pc.left := heeded'.left (heeded'.awake watchful timed).2
  have far : (isr .timer1CompA { m0 with cpu := cpu' }).pc.left = m0.pc.left := rfl
  refine ⟨kept,by omega,?_⟩
  show (m.awake _).isSome = true
  rw [awake,if_neg (by simp [(heeded'.awake watchful timed).1])]
  exact statement_isSome (m := { m with cpu := m.cpu.tick }) heeded'.outside fw nrf _

end Machine

def timerInfo : BanoInfo := ⟨10,wakeTimer ||| wakePcint,1⟩

/-- A timer that expires while the CPU sleeps. -/
def wakingRun : List (NodeLabel Bool) := List.replicate 19 .cpu ++ [.compareMatch]

theorem expiries_returned_waking : ∃ m mid es,
    Lib.run (Machine.step keyedNode bareNrf (captureInfo 8000000 timerInfo))
      (wakingRun ++ .interrupt .timer1CompA :: List.replicate 6 .cpu)
      (.start timerInfo ⟨0,0,0,0,0,0,0⟩ false) = some m ∧
    Lib.run (Machine.step keyedNode bareNrf (captureInfo 8000000 timerInfo)) (wakingRun ++ [.interrupt .timer1CompA])
      (.start timerInfo ⟨0,0,0,0,0,0,0⟩ false) = some mid ∧ m.trace = mid.trace ++ es ∧
      (Answered es ∨ .setUp ∉ es ∧
        (List.replicate 6 (.cpu : NodeLabel Bool)).countP NodeLabel.isCpu < 12 ∧
        (Machine.step keyedNode bareNrf (captureInfo 8000000 timerInfo) .cpu m).isSome = true) := by
  obtain ⟨m,ran,_⟩ : ∃ m, runChecked (Machine.step keyedNode bareNrf (captureInfo 8000000 timerInfo))
      (fun label m => decide (Machine.Timely bareNrf (captureInfo 8000000 timerInfo) label m))
      (wakingRun ++ .interrupt .timer1CompA :: List.replicate 6 .cpu)
        (.start timerInfo ⟨0,0,0,0,0,0,0⟩ false) = some m ∧
      m.trace = [.setUp,.expired,.taken,.returned evTimer] := Option.map_eq_some_iff.mp rfl
  have reach := Reach.of_checked (fun _ _ _ => of_decide_eq_true) ran
  obtain ⟨mid,es,there,told⟩ := Machine.expiries_returned keyedNode bareNrf 8000000 timerInfo
    ⟨0,0,0,0,0,0,0⟩ false (by decide)
    (by decide) reach
  exact ⟨m,mid,es,reach.run,there,told⟩

/-- A pin changes, and its handler runs when the timer expires. -/
def handlingRun : List (NodeLabel Bool) := List.replicate 11 .cpu ++ [.pinChange .b 0,.interrupt (.pcint .b)] ++
  List.replicate 8 .cpu ++ [.compareMatch]

theorem expiries_handling : ¬∀ (fw : Firmware) (nrf : NrfLib Bool) (fCpu : U32) (info : BanoInfo)
    (junk : BanoMsg) (radio : Bool)
    (front back : List (NodeLabel Bool)) (m : Machine Bool), info.wakeMask &&& wakeTimer ≠ 0 →
    info.wakeMask &&& wakePoll = 0 →
    info.wakeMask &&& (wakeMsg ||| wakePcint) ≠ 0 →
    Lib.run (Machine.step fw nrf (captureInfo fCpu info)) (front ++ .interrupt .timer1CompA :: back)
    (.start info junk radio) =
      some m →
    ∃ mid es, Lib.run (Machine.step fw nrf (captureInfo fCpu info)) (front ++ [.interrupt .timer1CompA])
    (.start info junk radio) =
      some mid ∧ m.trace = mid.trace ++ es ∧ (Answered es ∨ .setUp ∉ es) := by
  intro followed
  let back : List (NodeLabel Bool) := .answer 0 0 :: List.replicate 6 .cpu
  obtain ⟨m,ran,trace⟩ : ∃ m, Lib.run (Machine.step keyedNode bareNrf (captureInfo 8000000 timerInfo))
      (handlingRun ++ .interrupt .timer1CompA :: back) (.start timerInfo ⟨0,0,0,0,0,0,0⟩ false) = some m ∧
      m.trace = [.setUp,.returned evPcint,.expired,.setUp] := Option.map_eq_some_iff.mp rfl
  obtain ⟨mid,ran',trace'⟩ : ∃ m, Lib.run (Machine.step keyedNode bareNrf (captureInfo 8000000 timerInfo))
      (handlingRun ++ [.interrupt .timer1CompA]) (.start timerInfo ⟨0,0,0,0,0,0,0⟩ false) = some m ∧
      m.trace = [.setUp,.returned evPcint,.expired] := Option.map_eq_some_iff.mp rfl
  obtain ⟨mid',es,there,grown,told⟩ :=
    followed keyedNode bareNrf 8000000 timerInfo _ false handlingRun back m (by decide)
    (by decide) (by decide) ran
  obtain rfl := Option.some.inj (ran'.symm.trans there)
  obtain rfl : [.setUp] = es := by simpa [trace,trace'] using grown
  rcases told with ⟨early,ev,late,split,_,_⟩ | kept
  · have member : NodeEvent.returned ev ∈ [NodeEvent.setUp] := split ▸ by simp
    simp at member
  · simp at kept

end Bano
