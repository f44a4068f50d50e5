import Bano.Firmware
import Bano.Lib.Cpu

/-! bano_wait_event and bano_loop on the AVR, a statement at a time, between which
interrupts are served and the timer, the pins and the radio go on. The library of the
radio is a parameter, and so is what the handlers of the application do. -/
namespace Bano

open Lib

abbrev U8 := BitVec 8

inductive Port where
  | b
  | c
  | d
  deriving DecidableEq

inductive Irq where
  | timer1CompA
  | pcint (port : Port)
  deriving DecidableEq

/-- What the node uses of nrf.c, over the states of the radio and of its chip. -/
structure NrfLib (ρ : Type) where
  setRxMode : ρ → ρ
  setPowerdownMode : ρ → ρ
  getRxIrq : ρ → Bool × ρ
  peekRxIrq : ρ → Bool
  readPayloadZero : ρ → BanoMsg × ρ
  sendPayloadZero : BanoMsg → ρ → ρ

/-- NRF905_IO_IRQ_PCICR_MASK is the bit of this port. -/
def rxIrqPort : Port := .d

def wakeTimer : U8 := 1 <<< 0

def wakeMsg : U8 := 1 <<< 1

def wakePoll : U8 := 1 <<< 2

def wakePcint : U8 := 1 <<< 3

def evTimer : U8 := 1 <<< 1

def evMsg : U8 := 1 <<< 2

def evPcint : U8 := 1 <<< 3

structure BanoInfo where
  timer100ms : U16
  wakeMask : U8
  pcintMask : U32

/-- captured info -/
structure Captured where
  wakeMask : U8
  timerCounter : U16
  timer500ms : U16

def Captured.wakes (c : Captured) (mask : U8) : Bool := c.wakeMask &&& mask ≠ 0

def timerPrescal : U32 := 1024

def clkPrescal : U32 := 256

def captureInfo (fCpu : U32) (info : BanoInfo) : Captured :=
  let p := timerPrescal * clkPrescal
  let timed := info.wakeMask &&& (wakeTimer ||| wakePoll) ≠ 0
  { wakeMask := info.wakeMask
    timerCounter := if timed then (fCpu * info.timer100ms.setWidth 32 / (p * 10)).setWidth 16 else 0
    timer500ms := if timed then (fCpu * 5 / (p * 10)).setWidth 16 else 0 }

/-- The ticks of a period, over the integers. -/
def timerTicks (fCpu : U32) (info : BanoInfo) : Nat := fCpu.toNat * info.timer100ms.toNat / (1024 * 256 * 10)

/-- The counter is the number of ticks if and only if the product fits in 32 bits;
a node that does not wake on its timer leaves the counter at 0. -/
theorem timerCounter_iff (fCpu : U32) (info : BanoInfo) :
    (captureInfo fCpu info).timerCounter.toNat = timerTicks fCpu info ↔
      if info.wakeMask &&& (wakeTimer ||| wakePoll) ≠ 0 then fCpu.toNat * info.timer100ms.toNat < 2 ^ 32
      else timerTicks fCpu info = 0 := by
  split
  · next timed =>
    have short : info.timer100ms.toNat % 2 ^ 32 = info.timer100ms.toNat :=
      Nat.mod_eq_of_lt (Nat.lt_of_lt_of_le info.timer100ms.isLt (by decide))
    have divisor : (timerPrescal * clkPrescal * 10).toNat = 1024 * 256 * 10 := rfl
    have counter : (captureInfo fCpu info).timerCounter.toNat =
        fCpu.toNat * info.timer100ms.toNat % 2 ^ 32 / (1024 * 256 * 10) % 2 ^ 16 := by
      simp only [captureInfo,timed,ne_eq,not_false_eq_true,if_true,BitVec.toNat_setWidth,BitVec.toNat_udiv,
        BitVec.toNat_mul,short,divisor]
    rw [counter,timerTicks]
    -- a product that wraps loses at least 2^32, which is more than one tick
    omega
  · next timeless =>
    have zero : (captureInfo fCpu info).timerCounter = 0 := by
      simp [captureInfo,not_not.mp timeless]
    rw [zero]
    exact eq_comm

/-- One minute at 8 MHz. -/
theorem timerCounter_wraps : ¬∀ (fCpu : U32) (info : BanoInfo), fCpu.toNat < 2 ^ 31 → info.timer100ms.toNat ≤ 10736 →
    timerTicks fCpu info < 2 ^ 16 → info.wakeMask &&& (wakeTimer ||| wakePoll) ≠ 0 →
    (captureInfo fCpu info).timerCounter.toNat = timerTicks fCpu info := by
  intro computed
  have wrapped := computed 8000000 ⟨600,wakeTimer,0⟩ (by decide) (by decide) (by decide) (by decide)
  exact absurd wrapped (by decide)

/-- The two calls of timer_setup: to wait, and once the next message was asked for. -/
inductive SetupCall where
  | wait
  | ask

def Captured.counter (c : Captured) : SetupCall → U16
  | .wait => c.timerCounter
  | .ask => c.timer500ms

/-- The statement that comes next. -/
inductive Pc where
  -- bano_wait_event, up to its loop
  | redoWait
  | waitTimer
  | setRxMode
  -- timer_setup
  | stopTimer (call : SetupCall)
  | setCounter (call : SetupCall)
  | setMask (call : SetupCall)
  | clearIrq (call : SetupCall)
  | startTimer (call : SetupCall)
  -- the loop of bano_wait_event
  | sleepDisable
  | testTimer
  | takeTimer
  | testMsg
  | disableRxIrq
  | readPayload
  | enableRxIrq
  | testPcint
  | takePcint
  | sleepEnable
  | cli
  | lastTimer
  | lastMsg
  | lastPcint
  | sei
  | seiSleep
  | sleepCpu
  -- on_event
  | onEvent
  | poll
  | waitMsg
  | ret
  -- bano_loop
  | loopMsg
  | msgHandler
  | loopTimer
  | timerHandler
  | loopPcint
  | pcintHandler

def Pc.isHandler : Pc → Bool
  | .msgHandler | .timerHandler | .pcintHandler => true
  | _ => false

/-- What is told of a run. -/
inductive NodeEvent where
  /-- TIMER1_COMPA sets timer_irq. -/
  | expired
  /-- timer_setup clears it. -/
  | setUp
  /-- bano_wait_event clears it. -/
  | taken
  | returned (ev : U8)
  deriving DecidableEq

structure Machine (ρ : Type) where
  pc : Pc
  ev : U8
  msg : BanoMsg
  timerIrq : Bool
  pcintIrq : Bool
  cpu : Cpu Irq
  tccr1b : U8
  ocr1a : U16
  pcmsk : Port → U8
  /-- The pin of the radio interrupts. -/
  rxIrq : Bool
  radio : ρ
  trace : List NodeEvent

/-- The bits of TCCR1B that select a clock. -/
def clockBits : U8 := (1 <<< 3) - 1

namespace Machine

def goto (m : Machine ρ) (pc : Pc) : Machine ρ := { m with pc := pc }

/-- The counter of the timer runs. -/
def TimerRuns (m : Machine ρ) : Prop := m.tccr1b &&& clockBits ≠ 0

instance (m : Machine ρ) : Decidable m.TimerRuns := inferInstanceAs (Decidable (_ ≠ _))

/-- The three PCINT handlers are the same. -/
def isr : Irq → Machine ρ → Machine ρ
  | .timer1CompA, m => { m with
      tccr1b := m.tccr1b &&& ~~~clockBits
      timerIrq := true
      trace := m.trace ++ [.expired] }
  | .pcint _, m => { m with pcintIrq := true }

def pcintSetupPort (port : Port) (mask : U8) (m : Machine ρ) : Machine ρ :=
  if mask ≠ 0 then { m with
    cpu := m.cpu.unmask (.pcint port)
    pcmsk := Function.update m.pcmsk port (m.pcmsk port ||| mask) }
  else m

def pcintSetup (m0 m1 m2 : U8) (m : Machine ρ) : Machine ρ :=
  pcintSetupPort .d m2 (pcintSetupPort .c m1 (pcintSetupPort .b m0 { m with pcintIrq := false }))

def nrfSetupRxIrq (m : Machine ρ) : Machine ρ := { m with cpu := m.cpu.unmask (.pcint rxIrqPort), rxIrq := true }

/-- What the rest of bano_init sets up is not read here. -/
def banoInit (info : BanoInfo) (m : Machine ρ) : Machine ρ :=
  let m := if info.wakeMask &&& wakeMsg ≠ 0 then m.nrfSetupRxIrq else m
  if info.wakeMask &&& wakePcint ≠ 0 then
    m.pcintSetup (info.pcintMask.setWidth 8) ((info.pcintMask >>> 8).setWidth 8) ((info.pcintMask >>> 16).setWidth 8)
  else m

/-- After a reset, in memory where `junk` is left of the message. -/
def reset (junk : BanoMsg) (radio : ρ) : Machine ρ where
  pc := .redoWait
  ev := 0
  msg := junk
  timerIrq := false
  pcintIrq := false
  cpu := ⟨false,false,false,false,fun _ => false,fun _ => false⟩
  tccr1b := 0
  ocr1a := 0
  pcmsk := fun _ => 0
  rxIrq := false
  radio := radio
  trace := []

/-- bano_loop is entered after bano_init. -/
def start (info : BanoInfo) (junk : BanoMsg) (radio : ρ) : Machine ρ := (reset junk radio).banoInit info

end Machine

/-- It never receives a message. -/
def waitMsgOrTimer (_ : BanoMsg) : U8 := -1

namespace Machine

/-- The statement at the counter, once interrupts may be served behind it. A handler goes on by steps of its own. -/
def statement (fw : Firmware) (nrf : NrfLib ρ) (c : Captured) (m : Machine ρ) : Option (Machine ρ) :=
  match m.pc with
  | .redoWait => some { m with ev := 0, cpu := m.cpu.sei, pc := .waitTimer }
  | .waitTimer => some (m.goto (if c.wakes (wakeTimer ||| wakePoll) then .stopTimer .wait else .setRxMode))
  | .stopTimer call => some { m with tccr1b := 0, pc := .setCounter call }
  | .setCounter call => some { m with ocr1a := c.counter call, pc := .setMask call }
  | .setMask call => some { m with cpu := m.cpu.unmask .timer1CompA, pc := .clearIrq call }
  | .clearIrq call => some { m with timerIrq := false, trace := m.trace ++ [.setUp], pc := .startTimer call }
  | .startTimer call => some { m with
      tccr1b := (1#8 <<< 3) ||| (5#8 <<< 0)
      pc := match call with
        | .wait => .setRxMode
        | .ask => .waitMsg }
  | .setRxMode => some { m with
      radio := if c.wakes wakeMsg then nrf.setRxMode m.radio else m.radio
      pc := .sleepDisable }
  | .sleepDisable => some { m with cpu := { m.cpu with sleepEnabled := false }, pc := .testTimer }
  -- handle timer first
  | .testTimer => some (m.goto (if c.wakes (wakeTimer ||| wakePoll) && m.timerIrq then .takeTimer else .testMsg))
  | .takeTimer =>
    some { m with timerIrq := false, ev := m.ev ||| evTimer, trace := m.trace ++ [.taken], pc := .onEvent }
  | .testMsg =>
    if c.wakes wakeMsg then
      let (irq,radio) := nrf.getRxIrq m.radio
      some { m with radio := radio, pc := if irq then .disableRxIrq else .testPcint }
    else some (m.goto .testPcint)
  | .disableRxIrq => some { m with rxIrq := false, pc := .readPayload }
  | .readPayload =>
    let (payload,radio) := nrf.readPayloadZero m.radio
    some { m with msg := payload, radio := radio, pc := .enableRxIrq }
  | .enableRxIrq => some { m with rxIrq := true, msg := fw.banoWaitEvent m.msg, ev := m.ev ||| evMsg, pc := .onEvent }
  | .testPcint => some (m.goto (if c.wakes wakePcint && m.pcintIrq then .takePcint else .sleepEnable))
  | .takePcint => some { m with pcintIrq := false, ev := m.ev ||| evPcint, pc := .onEvent }
  | .sleepEnable => some { m with cpu := { m.cpu with sleepEnabled := true }, pc := .cli }
  | .cli => some { m with cpu := m.cpu.cli, pc := .lastTimer }
  | .lastTimer => some (m.goto (if c.wakes (wakeTimer ||| wakePoll) && m.timerIrq then .sei else .lastMsg))
  | .lastMsg => some (m.goto (if c.wakes wakeMsg && nrf.peekRxIrq m.radio then .sei else .lastPcint))
  | .lastPcint => some (m.goto (if c.wakes wakePcint && m.pcintIrq then .sei else .seiSleep))
  | .sei => some { m with cpu := m.cpu.sei, pc := .sleepDisable }
  | .seiSleep => some { m with cpu := m.cpu.sei, pc := .sleepCpu }
  | .sleepCpu => some { m with cpu := m.cpu.sleep, pc := .sleepDisable }
  | .onEvent => some { m with
      radio := if c.wakes wakeMsg then nrf.setPowerdownMode m.radio else m.radio
      pc := .poll }
  | .poll =>
    if c.wakes wakePoll ∧ m.ev &&& evTimer ≠ 0 then
      -- ask and wait for next message
      let msg := fw.pollMsg m.msg
      some { m with msg := msg, radio := nrf.sendPayloadZero msg m.radio, pc := .stopTimer .ask }
    else some (m.goto .ret)
  | .waitMsg =>
    if waitMsgOrTimer m.msg = -1 then some (m.goto (if c.wakes wakeTimer then .ret else .redoWait))
    else some { m with ev := m.ev ||| evMsg, pc := .ret }
  | .ret => some { m with trace := m.trace ++ [.returned m.ev], pc := .loopMsg }
  | .loopMsg =>
    some (m.goto (if m.ev &&& evMsg ≠ 0 ∧ (m.msg.op = msgOpSet ∨ m.msg.op = msgOpGet) then
      .msgHandler else .loopTimer))
  | .loopTimer => some (m.goto (if m.ev &&& evTimer ≠ 0 then .timerHandler else .loopPcint))
  | .loopPcint => some (m.goto (if m.ev &&& evPcint ≠ 0 then .pcintHandler else .redoWait))
  | .msgHandler | .timerHandler | .pcintHandler => none

/-- A handler has returned, the one for messages with flags and perhaps a value. -/
def answer (fw : Firmware) (nrf : NrfLib ρ) (flags : U8) (val : U32) (m : Machine ρ) : Option (Machine ρ) :=
  match m.pc with
  | .msgHandler =>
    match (fw.banoLoop ⟨fun _ _ => flags,fun _ => (flags,val)⟩ m.msg).2 with
    | some msg => some { m with msg := msg, radio := nrf.sendPayloadZero msg m.radio, pc := .loopTimer }
    | none => some (m.goto .loopTimer)
  | .timerHandler => some (m.goto .loopPcint)
  | .pcintHandler => some (m.goto .redoWait)
  | _ => none

end Machine

inductive NodeLabel (ρ : Type) where
  /-- The CPU goes on. -/
  | cpu
  /-- The handler that runs uses the radio, and may mask interrupts or not. -/
  | handler (radio : ρ) (enabled : Bool)
  | answer (flags : U8) (val : U32)
  | interrupt (irq : Irq)
  | compareMatch
  | pinChange (port : Port) (pin : Fin 8)
  /-- The radio goes on by itself. -/
  | radio (radio : ρ) (raises : Bool)

/-- Only a CPU that is awake does something. -/
def Machine.awake (m : Machine ρ) (go : Machine ρ → Option (Machine ρ)) : Option (Machine ρ) :=
  if m.cpu.asleep then none else go { m with cpu := m.cpu.tick }

/-- A message becomes visible together with a pin change, unless the pin does not interrupt. -/
def Machine.step (fw : Firmware) (nrf : NrfLib ρ) (c : Captured) : NodeLabel ρ → Machine ρ → Option (Machine ρ)
  | .cpu, m => m.awake (statement fw nrf c)
  | .handler radio enabled, m =>
    if m.pc.isHandler then m.awake fun m =>
      some { m with radio := radio, cpu := { m.cpu with enabled := enabled } } else none
  | .answer flags val, m => m.awake (answer fw nrf flags val)
  | .interrupt irq, m => do
    let cpu ← m.cpu.serve irq
    some (isr irq { m with cpu := cpu })
  | .compareMatch, m => if m.TimerRuns then some { m with cpu := m.cpu.raise .timer1CompA } else none
  | .pinChange port pin, m =>
    if (m.pcmsk port).getLsbD pin then some { m with cpu := m.cpu.raise (.pcint port) } else none
  | .radio radio raises, m =>
    if m.rxIrq ∧ nrf.peekRxIrq radio ∧ ¬nrf.peekRxIrq m.radio ∧ ¬raises then none
    else some { m with radio := radio, cpu := if raises then m.cpu.raise (.pcint rxIrqPort) else m.cpu }

namespace Machine

theorem awake_some {m : Machine ρ} (taken : m.awake go = some m') :
    m.cpu.asleep = false ∧ go { m with cpu := m.cpu.tick } = some m' := by
  unfold awake at taken
  split at taken
  · exact nomatch taken
  · next awake => exact ⟨by simpa using awake,taken⟩

/-- What a step can do. -/
inductive Moves (fw : Firmware) (nrf : NrfLib ρ) (c : Captured) (m : Machine ρ) : NodeLabel ρ → Machine ρ → Prop where
  | statement : m.cpu.asleep = false → statement fw nrf c { m with cpu := m.cpu.tick } = some m' →
      Moves fw nrf c m .cpu m'
  | handler {radio' : ρ} : m.cpu.asleep = false → m.pc.isHandler = true → Moves fw nrf c m (.handler radio' enabled)
      { m with radio := radio', cpu := { m.cpu.tick with enabled := enabled } }
  | answer : m.cpu.asleep = false → answer fw nrf flags val { m with cpu := m.cpu.tick } = some m' →
      Moves fw nrf c m (.answer flags val) m'
  | interrupt : m.cpu.serve irq = some cpu' → Moves fw nrf c m (.interrupt irq) (isr irq { m with cpu := cpu' })
  | compareMatch : Moves fw nrf c m .compareMatch { m with cpu := m.cpu.raise .timer1CompA }
  | pinChange : Moves fw nrf c m (.pinChange port pin) { m with cpu := m.cpu.raise (.pcint port) }
  | radio {radio' : ρ} : (m.rxIrq = true → nrf.peekRxIrq radio' = true →
      nrf.peekRxIrq m.radio = false → raises = true) →
      Moves fw nrf c m (.radio radio' raises)
        { m with radio := radio', cpu := if raises then m.cpu.raise (.pcint rxIrqPort) else m.cpu }

theorem step_moves {m : Machine ρ} (taken : step fw nrf c label m = some m') : Moves fw nrf c m label m' := by
  cases label with
  | cpu =>
    obtain ⟨awake,taken⟩ := awake_some taken
    exact .statement awake taken
  | handler radio enabled =>
    simp only [step] at taken
    split at taken
    · next runs =>
      obtain ⟨awake,taken⟩ := awake_some taken
      obtain rfl := Option.some.inj taken
      exact .handler awake runs
    · exact nomatch taken
  | answer flags val =>
    obtain ⟨awake,taken⟩ := awake_some taken
    exact .answer awake taken
  | interrupt irq =>
    obtain ⟨cpu',served,rfl⟩ := bind_some.mp taken
    exact .interrupt served
  | compareMatch =>
    simp only [step] at taken
    split at taken
    · obtain rfl := Option.some.inj taken
      exact .compareMatch
    · exact nomatch taken
  | pinChange port pin =>
    simp only [step] at taken
    split at taken
    · obtain rfl := Option.some.inj taken
      exact .pinChange
    · exact nomatch taken
  | radio radio raises =>
    simp only [step] at taken
    split at taken
    · exact nomatch taken
    · next silent =>
      obtain rfl := Option.some.inj taken
      refine .radio fun on visible hidden => ?_
      simpa [on,visible,hidden] using silent

end Machine
end Bano
