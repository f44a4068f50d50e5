import Bano.Avr

/-! The node does not sleep through what it waits for: the flags are tested with
interrupts disabled, and none is served before the CPU sleeps. -/
namespace Bano

open Lib

/-- An event of the wake mask is there. -/
def Machine.Flagged (nrf : NrfLib ρ) (c : Captured) (m : Machine ρ) : Prop :=
  c.wakes (wakeTimer ||| wakePoll) = true ∧ m.timerIrq = true ∨ c.wakes wakeMsg = true ∧
    nrf.peekRxIrq m.radio = true ∨
    c.wakes wakePcint = true ∧ m.pcintIrq = true

/-- Interrupts are disabled here. -/
def Pc.masked : Pc → Bool
  | .lastTimer | .lastMsg | .lastPcint | .seiSleep => true
  | _ => false

/-- timer_irq was tested since they were. -/
def Pc.timerTested : Pc → Bool
  | .lastMsg | .lastPcint | .seiSleep | .sleepCpu => true
  | _ => false

def Pc.msgTested : Pc → Bool
  | .lastPcint | .seiSleep | .sleepCpu => true
  | _ => false

def Pc.pcintTested : Pc → Bool
  | .seiSleep | .sleepCpu => true
  | _ => false

/-- From cli to sleep_cpu. -/
def Pc.tests : Pc → Bool
  | .cli | .lastTimer | .lastMsg | .lastPcint | .seiSleep | .sleepCpu => true
  | _ => false

/-- The pin of the radio is off while a message is read. -/
def Pc.reads : Pc → Bool
  | .readPayload | .enableRxIrq => true
  | _ => false

/-- Nothing is tested outside of these statements. -/
theorem Pc.untested {pc : Pc} (masked : pc.masked = false) (sleeps : pc ≠ .sleepCpu) :
    pc.timerTested = false ∧ pc.msgTested = false ∧ pc.pcintTested = false := by
  revert masked sleeps
  cases pc <;> simp [Pc.masked,Pc.timerTested,Pc.msgTested,Pc.pcintTested]

theorem Pc.tested_reads {pc : Pc} (tested : pc.msgTested = true) : pc.reads = false := by
  revert tested
  cases pc <;> simp [Pc.msgTested,Pc.reads]

/-- A handler runs outside of bano_wait_event. -/
theorem Pc.handler_outside {pc : Pc} (runs : pc.isHandler = true) :
    pc.masked = false ∧ pc ≠ .sleepCpu ∧ pc.reads = false := by
  revert runs
  cases pc <;> simp [Pc.isHandler,Pc.masked,Pc.reads]

/-- What was tested stays as it was found, but for a message that comes with an interrupt. -/
structure Machine.Watchful (nrf : NrfLib ρ) (c : Captured) (m : Machine ρ) : Prop where
  unmasked : c.wakes wakeMsg = true → m.cpu.unmasked (.pcint rxIrqPort) = true
  rxIrq : c.wakes wakeMsg = true → m.pc.reads = false → m.rxIrq = true
  masked : m.pc.masked = true → m.cpu.enabled = false
  sleeps : m.pc = .sleepCpu → m.cpu.enabled = true ∧ m.cpu.shadow = true
  asleep : m.cpu.asleep = true → m.pc = .sleepDisable ∧ ¬m.cpu.Deaf
  timer : m.pc.timerTested = true ∨ m.cpu.asleep = true → c.wakes (wakeTimer ||| wakePoll) = true → m.timerIrq = false
  msg : m.pc.msgTested = true ∨ m.cpu.asleep = true → c.wakes wakeMsg = true →
    nrf.peekRxIrq m.radio = true → m.cpu.Pending
  pcint : m.pc.pcintTested = true ∨ m.cpu.asleep = true → c.wakes wakePcint = true → m.pcintIrq = false

namespace Machine

theorem Watchful.pending {m : Machine ρ} (watchful : m.Watchful nrf c) (asleep : m.cpu.asleep = true)
    (flagged : m.Flagged nrf c) : m.cpu.Pending := by
  rcases flagged with ⟨wakes,timer⟩ | ⟨wakes,message⟩ | ⟨wakes,pcint⟩
  · exact nomatch timer.symm.trans (watchful.timer (.inr asleep) wakes)
  · exact watchful.msg (.inr asleep) wakes message
  · exact nomatch pcint.symm.trans (watchful.pcint (.inr asleep) wakes)

theorem Watchful.of_awake {m : Machine ρ}
    (unmasked : c.wakes wakeMsg = true → m.cpu.unmasked (.pcint rxIrqPort) = true)
    (rxIrq : c.wakes wakeMsg = true → m.pc.reads = false → m.rxIrq = true) (awake : m.cpu.asleep = false)
    (masked : m.pc.masked = true → m.cpu.enabled = false) (sleeps : m.pc = .sleepCpu → m.cpu.enabled = true ∧
      m.cpu.shadow = true)
    (timer : m.pc.timerTested = true → c.wakes (wakeTimer ||| wakePoll) = true → m.timerIrq = false)
    (message : m.pc.msgTested = true → c.wakes wakeMsg = true → nrf.peekRxIrq m.radio = true → m.cpu.Pending)
    (pcint : m.pc.pcintTested = true → c.wakes wakePcint = true → m.pcintIrq = false) : m.Watchful nrf c := by
  refine ⟨unmasked,rxIrq,masked,sleeps,?_,?_,?_,?_⟩ <;> simp [awake] <;> assumption

/-- Outside the tests under cli, an awake CPU has nothing to keep but the pin of the radio. -/
theorem Watchful.calm {m : Machine ρ} (unmasked : c.wakes wakeMsg = true → m.cpu.unmasked (.pcint rxIrqPort) = true)
    (rxIrq : c.wakes wakeMsg = true → m.pc.reads = false → m.rxIrq = true) (awake : m.cpu.asleep = false)
    (masked : m.pc.masked = false) (sleeps : m.pc ≠ .sleepCpu) : m.Watchful nrf c := by
  obtain ⟨timer,message,pcint⟩ := Pc.untested masked sleeps
  exact .of_awake unmasked rxIrq awake (by simp [masked]) (fun here => absurd here sleeps)
    (by simp [timer]) (by simp [message])
    (by simp [pcint])

theorem Watchful.interrupt {m : Machine ρ} (watchful : m.Watchful nrf c) (served : m.cpu.serve irq = some cpu') :
    (isr irq { m with cpu := cpu' }).Watchful nrf c := by
  obtain ⟨listens,_,_,rfl⟩ := Cpu.serve_some served
  have masked : m.pc.masked = false := by
    cases here : m.pc.masked with
    | false => rfl
    | true => exact absurd (.inl (watchful.masked here)) listens
  have sleeps : m.pc ≠ .sleepCpu := fun here => listens (.inr (watchful.sleeps here).2)
  cases irq with
  | timer1CompA => exact .calm watchful.unmasked watchful.rxIrq rfl masked sleeps
  | pcint port => exact .calm watchful.unmasked watchful.rxIrq rfl masked sleeps

/-- Raising an interrupt forgets nothing, and a message may come with it. -/
theorem Watchful.raise {m : Machine ρ} (watchful : m.Watchful nrf c) (irq : Irq) :
    { m with cpu := m.cpu.raise irq }.Watchful nrf c :=
  ⟨watchful.unmasked,watchful.rxIrq,watchful.masked,watchful.sleeps,watchful.asleep,watchful.timer,
    fun tested wakes message => (watchful.msg tested wakes message).raise irq,watchful.pcint⟩

theorem Watchful.hears {m : Machine ρ} (watchful : m.Watchful nrf c) (radio : ρ)
    (known : c.wakes wakeMsg = true → m.rxIrq = true → nrf.peekRxIrq radio = true → nrf.peekRxIrq m.radio = false →
      m.cpu.Pending) :
    { m with radio := radio }.Watchful nrf c := by
  refine ⟨watchful.unmasked,watchful.rxIrq,watchful.masked,watchful.sleeps,watchful.asleep,watchful.timer,
    ?_,watchful.pcint⟩
  intro tested wakes message
  have pc : m.pc.reads = false := by
    rcases tested with tested | asleep
    · exact Pc.tested_reads tested
    · rw [(watchful.asleep asleep).1]
      rfl
  cases before : nrf.peekRxIrq m.radio with
  | true => exact watchful.msg tested wakes before
  | false => exact known wakes (watchful.rxIrq wakes pc) message before

theorem statement_unmasked {m : Machine ρ} (taken : statement fw nrf c m = some m')
    (unmasked : m.cpu.unmasked irq = true) :
    m'.cpu.unmasked irq = true := by
  unfold statement at taken
  split at taken
  all_goals grind [goto,Cpu.sei,Cpu.unmask_unmasked,Cpu.cli,Cpu.sleep]

/-- Only where the radio is read is its pin off. -/
theorem statement_rxIrq {m : Machine ρ} (taken : statement fw nrf c m = some m')
    (on : m.pc.reads = false → m.rxIrq = true) (reads : m'.pc.reads = false) : m'.rxIrq = true := by
  unfold statement at taken
  split at taken
  all_goals grind [goto,Pc.reads]

theorem statement_outside {m : Machine ρ} (taken : statement fw nrf c m = some m') (outside : m.pc.tests = false) :
    m'.cpu.asleep = m.cpu.asleep ∧ m'.pc.masked = false ∧ m'.pc ≠ .sleepCpu := by
  unfold statement at taken
  split at taken
  all_goals grind [goto,Pc.masked,Pc.tests,Cpu.sei,Cpu.unmask,Cpu.cli]

theorem Watchful.statement {m : Machine ρ} (watchful : m.Watchful nrf c) (awake : m.cpu.asleep = false)
    (taken : statement fw nrf c { m with cpu := m.cpu.tick } = some m') : m'.Watchful nrf c := by
  have unmasked wakes := statement_unmasked taken (watchful.unmasked wakes)
  have rxIrq wakes := statement_rxIrq taken (watchful.rxIrq wakes)
  obtain ⟨_,_,masked,sleeps,_,timer,message,pcint⟩ := watchful
  cases outside : m.pc.tests with
  | false =>
    obtain ⟨same,masked',sleeps'⟩ := statement_outside taken outside
    exact .calm unmasked rxIrq (same.trans awake) masked' sleeps'
  | true =>
    cases here : m.pc <;> simp only [here,Pc.tests,reduceCtorEq] at outside
    all_goals simp only [Machine.statement,here] at taken
    case cli =>
      obtain rfl := Option.some.inj taken
      exact .of_awake unmasked rxIrq awake
        (fun _ => rfl) (by rintro ⟨⟩) (by rintro ⟨⟩) (by rintro ⟨⟩) (by rintro ⟨⟩)
    case lastTimer =>
      have off : m.cpu.enabled = false := masked (by rw [here]; rfl)
      split at taken <;> obtain rfl := Option.some.inj taken
      · exact .calm unmasked rxIrq awake rfl (by rintro ⟨⟩)
      · next quiet =>
        refine .of_awake unmasked rxIrq awake
          (fun _ => off) (by rintro ⟨⟩) (fun _ wakes => ?_) (by rintro ⟨⟩) (by rintro ⟨⟩)
        simpa [wakes,goto] using quiet
    case lastMsg =>
      have off : m.cpu.enabled = false := masked (by rw [here]; rfl)
      have timer' := timer (.inl (by rw [here]; rfl))
      split at taken <;> obtain rfl := Option.some.inj taken
      · exact .calm unmasked rxIrq awake rfl (by rintro ⟨⟩)
      · next quiet =>
        refine .of_awake unmasked rxIrq awake
          (fun _ => off) (by rintro ⟨⟩) (fun _ => timer') (fun _ wakes visible => ?_) (by rintro ⟨⟩)
        have visible' : nrf.peekRxIrq m.radio = true := visible
        exact absurd (by simp [wakes,visible']) quiet
    case lastPcint =>
      have off : m.cpu.enabled = false := masked (by rw [here]; rfl)
      have timer' := timer (.inl (by rw [here]; rfl))
      have message' := message (.inl (by rw [here]; rfl))
      split at taken <;> obtain rfl := Option.some.inj taken
      · exact .calm unmasked rxIrq awake rfl (by rintro ⟨⟩)
      · next quiet =>
        refine .of_awake unmasked rxIrq awake
          (fun _ => off) (by rintro ⟨⟩) (fun _ => timer') (fun _ => message') fun _ wakes => ?_
        simpa [wakes,goto] using quiet
    case seiSleep =>
      obtain rfl := Option.some.inj taken
      have timer' := timer (.inl (by rw [here]; rfl))
      have message' := message (.inl (by rw [here]; rfl))
      have pcint' := pcint (.inl (by rw [here]; rfl))
      exact .of_awake unmasked rxIrq awake
        (by rintro ⟨⟩) (fun _ => ⟨rfl,rfl⟩) (fun _ => timer') (fun _ => message') fun _ => pcint'
    case sleepCpu =>
      obtain rfl := Option.some.inj taken
      have timer' := timer (.inl (by rw [here]; rfl))
      have message' := message (.inl (by rw [here]; rfl))
      have pcint' := pcint (.inl (by rw [here]; rfl))
      have listens : ¬m.cpu.tick.sleep.Deaf := by simp [Cpu.Deaf,Cpu.tick,Cpu.sleep,(sleeps here).1]
      exact ⟨unmasked,rxIrq,(by rintro ⟨⟩),(by rintro ⟨⟩),fun _ => ⟨rfl,listens⟩,fun _ => timer',
        fun _ => message',fun _ => pcint'⟩

theorem answer_outside {m : Machine ρ} (taken : answer fw nrf flags val m = some m') : m.pc.isHandler = true ∧
    m'.pc.masked = false ∧ m'.pc ≠ .sleepCpu ∧ m'.cpu = m.cpu ∧ m'.rxIrq = m.rxIrq := by
  unfold answer at taken
  split at taken
  all_goals grind [goto,Pc.isHandler,Pc.masked]

theorem Watchful.step {m : Machine ρ} (watchful : m.Watchful nrf c) (taken : step fw nrf c label m = some m') :
    m'.Watchful nrf c := by
  cases step_moves taken with
  | statement awake taken => exact watchful.statement awake taken
  | handler awake runs =>
    obtain ⟨masked,sleeps,_⟩ := Pc.handler_outside runs
    exact .calm watchful.unmasked watchful.rxIrq awake masked sleeps
  | answer awake taken =>
    obtain ⟨runs,masked,sleeps,sameCpu,sameIrq⟩ := answer_outside taken
    obtain ⟨_,_,reads⟩ := Pc.handler_outside runs
    refine .calm ?_ ?_ ?_ masked sleeps
    · rw [sameCpu]
      exact watchful.unmasked
    · rw [sameIrq]
      exact fun wakes _ => watchful.rxIrq wakes reads
    · rw [sameCpu]
      exact awake
  | interrupt served => exact watchful.interrupt served
  | compareMatch => exact watchful.raise _
  | pinChange => exact watchful.raise _
  | @radio raises radio comes =>
    cases raises with
    | true =>
      apply (watchful.raise (.pcint rxIrqPort)).hears radio
      intro wakes _ _ _
      exact Cpu.raise_pending (watchful.unmasked wakes)
    | false => exact watchful.hears radio fun _ on visible hidden => nomatch comes on visible hidden

theorem Watchful.pcintSetupPort {m : Machine ρ} (watchful : m.Watchful nrf c) (port : Port) (mask : U8) :
    (m.pcintSetupPort port mask).Watchful nrf c := by
  unfold Machine.pcintSetupPort
  split
  · exact ⟨fun wakes => Cpu.unmask_unmasked (watchful.unmasked wakes) _,watchful.rxIrq,
      watchful.masked,watchful.sleeps,
      watchful.asleep,watchful.timer,fun tested wakes message =>
        (watchful.msg tested wakes message).unmask _,watchful.pcint⟩
  · exact watchful

theorem start_watchful (nrf : NrfLib ρ) (fCpu : U32) (info : BanoInfo) (junk : BanoMsg) (radio : ρ) :
    (start info junk radio).Watchful nrf (captureInfo fCpu info) := by
  have early : (if info.wakeMask &&& wakeMsg ≠ 0 then (reset junk radio).nrfSetupRxIrq else
    reset junk radio).Watchful nrf
      (captureInfo fCpu info) := by
    split
    · exact .calm (fun _ => Cpu.unmask_self _ _) (fun _ _ => rfl) rfl rfl (by rintro ⟨⟩)
    · next off =>
      have off' : (captureInfo fCpu info).wakes wakeMsg = false := by simpa [captureInfo,Captured.wakes] using off
      exact .calm (by simp [off']) (by simp [off']) rfl rfl (by rintro ⟨⟩)
  unfold start banoInit
  dsimp only
  split
  · refine Watchful.pcintSetupPort (Watchful.pcintSetupPort (Watchful.pcintSetupPort ?_ _ _) _ _) _ _
    exact ⟨early.unmasked,early.rxIrq,early.masked,early.sleeps,early.asleep,early.timer,early.msg,fun _ _ => rfl⟩
  · exact early

/-- The CPU is never asleep while an event of the wake mask is flagged and no interrupt is pending. -/
theorem asleep_pending (fw : Firmware) (nrf : NrfLib ρ) (fCpu : U32) (info : BanoInfo) (junk : BanoMsg) (radio : ρ)
    (ran : run (step fw nrf (captureInfo fCpu info)) labels (start info junk radio) = some m) :
    ¬(m.cpu.asleep = true ∧ m.Flagged nrf (captureInfo fCpu info) ∧ ¬m.cpu.Pending) := by
  have reach : Reach (step fw nrf (captureInfo fCpu info)) (fun _ _ => True) (start info junk radio) labels m :=
    .of_run (by simp) ran
  have watchful := reach.invariant (fun m => m.Watchful nrf (captureInfo fCpu info))
    (start_watchful nrf fCpu info junk radio)
    fun _ _ _ watchful _ taken => watchful.step taken
  rintro ⟨asleep,flagged,idle⟩
  exact idle (watchful.pending asleep flagged)

/-- What is pending while it sleeps can wake it. -/
theorem Watchful.wakes {m : Machine ρ} (watchful : m.Watchful nrf c) (asleep : m.cpu.asleep = true)
    (pending : m.cpu.Pending) :
    ∃ irq m', Machine.step fw nrf c (.interrupt irq) m = some m' ∧ m'.cpu.asleep = false := by
  obtain ⟨irq,cpu',served,awake⟩ := pending.served (watchful.asleep asleep).2
  refine ⟨irq,isr irq { m with cpu := cpu' },bind_some.mpr ⟨cpu',served,rfl⟩,?_⟩
  cases irq <;> exact awake

end Machine

/-- A radio that only tells whether a message is there. -/
def bareNrf : NrfLib Bool := ⟨id,id,fun there => (there,false),id,fun there => (⟨0,0,0,0,0,0,0⟩,there),
    fun _ there => there⟩

def msgInfo : BanoInfo := ⟨0,wakeMsg,0⟩

/-- A message comes once the CPU sleeps. -/
def sleepRun : List (NodeLabel Bool) := List.replicate 14 .cpu ++ [.radio true true]

theorem asleep_pending_message : ∃ m, run (Machine.step keyedNode bareNrf (captureInfo 8000000 msgInfo)) sleepRun
      (.start msgInfo ⟨0,0,0,0,0,0,0⟩ false) = some m ∧ m.cpu.asleep = true ∧
    ¬(m.cpu.asleep = true ∧ m.Flagged bareNrf (captureInfo 8000000 msgInfo) ∧ ¬m.cpu.Pending) := by
  obtain ⟨m,ran,asleep⟩ : ∃ m, run (Machine.step keyedNode bareNrf (captureInfo 8000000 msgInfo)) sleepRun
      (.start msgInfo ⟨0,0,0,0,0,0,0⟩ false) = some m ∧ m.cpu.asleep = true := Option.map_eq_some_iff.mp rfl
  exact ⟨m,ran,asleep,Machine.asleep_pending keyedNode bareNrf 8000000 msgInfo ⟨0,0,0,0,0,0,0⟩ false ran⟩

end Bano
