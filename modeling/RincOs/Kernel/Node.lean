/-
Module: RincOs.Kernel.Node
Purpose: One processor from `kmain` on: what the kernel sets up until it enables
  interrupts, and then the steps of the clock, of the local APIC and of the
  interrupt handlers in any order.
Trusted boundary: human-reviewed embedding of the order of `kernel/src/kmain.rs`,
  of `kernel/src/time.rs` and of `irq_dispatch`; human-reviewed model of the
  TSC deadline timer and of interrupt acceptance; no NMI, no machine check and no
  double fault, which the processor takes on the stack that the task state segment
  names for it
Main exports:
  Activity, Node, Node.kmain, TimeState.nextDeadline, Lapic.Deliverable, NodeEvent,
  Takes, NodeStep, NodeRun
-/
import RincOs.Arch.Lapic
import RincOs.Kernel.Interrupts

namespace RincOs

/-! ### The processor and the kernel -/

/-- What the processor is doing. -/
inductive Activity where
  /-- In `kmain` behind `enable_interrupts`: its last line to the log, and then its loop. -/
  | idle
  /-- At the start of `irq_dispatch`. -/
  | entered (ctx : ExceptionContext)
  /-- In `arm_next_tick`, before the deadline is written. -/
  | arming (ctx : ExceptionContext) (deadline : Word)
  /-- Before `apic::eoi`. -/
  | dispatched (ctx : ExceptionContext)
  /-- Before `iretq`. -/
  | ended (ctx : ExceptionContext)
  | panicked (message : List Char)
deriving DecidableEq

structure Node where
  apic : ApicMachine
  time : TimeState
  /-- `HANDLER_SET`. -/
  handlerSet : Bool
  /-- RFLAGS.IF. -/
  interruptFlag : Bool
  cr3 : Word
  /-- What the processor has done to its TLB. -/
  tlb : List CpuAction
  activity : Activity

/-- The deadline `arm_next_tick` computes, if it arms the timer at all. -/
def TimeState.nextDeadline (s : TimeState) : Option Word :=
  let hz := s.frequencyHz
  if hz = 0 then none
  else
    let ticks := saturatingMul tickNs hz / 1000000000
    if ticks = 0 then none else some (s.nowTicks + ticks)

theorem TimeState.armNextTick_eq_nextDeadline (s : TimeState) :
    s.armNextTick = s.nextDeadline.elim s s.armOneShot := by
  simp only [TimeState.armNextTick, TimeState.nextDeadline]
  split_ifs <;> rfl

namespace Lapic

/-- The timer of the local vector table is in TSC deadline mode. -/
def deadlineMode (l : Lapic) : Bool := l.lvtTimer >>> 17 &&& 0b11 == 0b10

/-- The deadline has passed. -/
def timerEvent (l : Lapic) : Lapic :=
  if l.lvtTimer &&& lvtMasked == 0 then l.request (l.lvtTimer.setWidth 8) else l

/-- The vector is the next one to be delivered: the highest requested, of a class above
that of every interrupt in service. -/
def Deliverable (l : Lapic) (vec : BitVec 8) : Prop :=
  highestVector l.irr = some vec ∧ 16 ≤ vec.toNat ∧
    ∀ other, highestVector l.isr = some other → other.toNat / 16 < vec.toNat / 16

end Lapic

/-- The result of an operation that the processor may refuse. -/
def orRaise {α : Type} (kind : FaultKind) : Option α → Except FaultKind α
  | some a => .ok a
  | none => .error kind

namespace Node

def onApic (n : Node) (lapic : Lapic) : Node := { n with apic := n.apic.onDevice lapic }

/-- `arm_one_shot`.  The register comes with the TSC deadline mode, and ignores writes while
the timer is in another mode. -/
def arm (n : Node) (deadline : Word) : Except FaultKind Node :=
  if n.time.registered && !hasTscDeadline n.apic.cpuid then .error .generalProtection
  else if n.apic.lapic.deadlineMode then
    .ok { n with time := n.time.armOneShot deadline }
  else .ok n

/-- The deadline `arm_next_tick` computes.  It reads the clock by `RDTSCP`. -/
def nextDeadline (n : Node) : Except FaultKind (Option Word) :=
  if n.time.nextDeadline.isSome && !hasRdtscp n.apic.cpuid then .error .invalidOpcode
  else .ok n.time.nextDeadline

/-- `arch::init_irqs`. -/
def initIrqs (n : Node) (hasTime : Bool) : Except FaultKind (Bool × Node) := do
  let (apicOk, apic) ← orRaise .generalProtection (n.apic.init n.apic.hhdm)
  return (apicOk,
    { n with apic := apic, time := if hasTime then n.time.registerTimer else n.time })

/-- `time::init`. -/
def initTime (n : Node) : Except FaultKind Node := do
  match ← n.nextDeadline with
  | none => return n
  | some deadline => n.arm deadline

/-- `kmain` from `interrupts::init` to `arch::init_irqs`, without `vm::init`, which does not
touch what is modelled here. -/
def startIrqs (n : Node) : Except FaultKind (Bool × Node) :=
  let source := n.time.init n.apic.cpuid
  initIrqs { n with handlerSet := true, time := source.2 } source.1

/-- `arch::enable_interrupts`.  From here on interrupts come in, also those that were
requested before. -/
def enableInterrupts (n : Node) : Node := { n with interruptFlag := true, activity := .idle }

/-- `kmain` from `interrupts::init` to `arch::enable_interrupts`; the error is an exception on
this way. -/
def kmain (n : Node) : Except FaultKind Node := do
  let (apicOk, n) ← n.startIrqs
  if !apicOk then
    return { n with activity := .panicked "arch irqs apic unavailable".toList }
  let n ← n.initTime
  return n.enableInterrupts

/-! ### Handlers -/

/-- `exception_dispatch`, and back to the interrupted code if it returns. -/
def exception (n : Node) (cr2 : Word) (ctx : ExceptionContext) : Node :=
  match exceptionDispatch n.handlerSet cr2 ctx with
  | .panic message => { n with interruptFlag := false, activity := .panicked message }
  | .tick | .ignore => n

/-- `irq_dispatch` up to `apic::eoi`, or in the case of a tick up to the write of the
deadline. -/
def dispatchIrq (n : Node) (ctx : ExceptionContext) : Except FaultKind Node :=
  match irqDispatch n.handlerSet ctx with
  | .shootdown =>
      .ok { n with tlb := n.tlb ++ handleTlbShootdown n.cr3, activity := .dispatched ctx }
  | .handle .ignore => .ok { n with activity := .dispatched ctx }
  | .handle (.panic message) => .ok { n with activity := .panicked message }
  | .handle .tick =>
      n.nextDeadline.map fun next =>
        { n with activity := next.elim (.dispatched ctx) (.arming ctx) }

end Node

/-- The context a stub has built for a vector and an error code. -/
structure ExceptionContext.Built (ctx : ExceptionContext) (vec : BitVec 8) (errorCode : Word) :
    Prop where
  vector : ctx.vector = vec.setWidth 64
  errorCode : ctx.errorCode = errorCode

/-- The error code of the exception for an interrupt on a vector without a gate: the entry of
the table, and the bits for the table and for an event from outside. -/
def missingGateCode (vec : BitVec 8) : Word := vec.setWidth 64 <<< 3 ||| 0b11

/-! ### Steps

The processor, its APIC and what is outside of them take turns.  The kernel gives away
control only at the points between the phases of a handler: within a phase it touches
nothing that a request or the clock could change under it. -/

inductive NodeEvent where
  /-- So many cycles of the clock pass. -/
  | clock (cycles : Nat)
  | timer
  /-- Another processor or a device requests an interrupt. -/
  | request (vec : BitVec 8)
  | accept (vec : BitVec 8)
  /-- The APIC delivers its spurious vector. -/
  | spurious
  | dispatch
  | arm
  /-- `apic::eoi`, with the interrupt that it ends. -/
  | eoi (retired : Option (BitVec 8))
  | iret
  | fault (cr2 : Word) (ctx : ExceptionContext)
deriving DecidableEq

/-- The processor goes through the gate of a vector; if there is none, through the one of
the exception that says so. -/
inductive Takes (text : StubText) (n : Node) (vec : BitVec 8) : Node → Prop where
  | gate (ctx : ExceptionContext) (installed : (text.idt vec).isPresent = true)
      (irq : 32 ≤ vec.toNat) (built : ctx.Built vec 0) :
      Takes text n vec { n with interruptFlag := false, activity := .entered ctx }
  /-- The gates of the exceptions lead to `exception_dispatch`.  Their stubs push the vector,
  and whatever is in its place as the error code. -/
  | exception (cr2 : Word) (ctx : ExceptionContext) (low : vec.toNat < 32)
      (number : ctx.vector = vec.setWidth 64) :
      Takes text n vec (n.exception cr2 ctx)
  /-- An entry that was never written is no gate of any type, which is a general protection
  fault.  The exception for a gate that is not present needs a gate. -/
  | missing (cr2 : Word) (ctx : ExceptionContext) (absent : text.idt vec = .missing)
      (built : ctx.Built 13 (missingGateCode vec)) :
      Takes text n vec (n.exception cr2 ctx)

/-- One step.  The timer's vector is requested by the timer only: the kernel sends no
IPI on it and programs no device. -/
inductive NodeStep (text : StubText) : Node → NodeEvent → Node → Prop where
  | clock {n : Node} (cycles : Nat) (fits : n.time.tsc.toNat + cycles < 2 ^ 64) :
      NodeStep text n (.clock cycles)
        { n with time := { n.time with tsc := n.time.tsc + BitVec.ofNat 64 cycles } }
  | timer {n : Node} (armed : n.time.deadline ≠ 0) (due : n.time.deadline ≤ n.time.tsc) :
      NodeStep text n .timer
        { n.onApic n.apic.lapic.timerEvent with time := { n.time with deadline := 0 } }
  | request {n : Node} (vec : BitVec 8) (other : vec ≠ timerVec) :
      NodeStep text n (.request vec) (n.onApic (n.apic.lapic.request vec))
  | accept {n n' : Node} {vec : BitVec 8} (idle : n.activity = .idle)
      (enabled : n.interruptFlag = true) (next : n.apic.lapic.Deliverable vec)
      (taken : Takes text (n.onApic (n.apic.lapic.acknowledge vec)) vec n') :
      NodeStep text n (.accept vec) n'
  | spurious {n n' : Node} (idle : n.activity = .idle) (enabled : n.interruptFlag = true)
      (taken : Takes text n (n.apic.lapic.svr.setWidth 8) n') :
      NodeStep text n .spurious n'
  | dispatch {n n' : Node} {ctx : ExceptionContext} (entered : n.activity = .entered ctx)
      (done : n.dispatchIrq ctx = .ok n') :
      NodeStep text n .dispatch n'
  | arm {n n' : Node} {ctx : ExceptionContext} {deadline : Word}
      (arming : n.activity = .arming ctx deadline) (done : n.arm deadline = .ok n') :
      NodeStep text n .arm { n' with activity := .dispatched ctx }
  | eoi {n : Node} {ctx : ExceptionContext} {apic : ApicMachine}
      (dispatched : n.activity = .dispatched ctx) (done : n.apic.eoi = some apic) :
      NodeStep text n (.eoi (highestVector n.apic.lapic.isr))
        { n with apic := apic, activity := .ended ctx }
  | iret {n : Node} {ctx : ExceptionContext} (ended : n.activity = .ended ctx) :
      NodeStep text n .iret { n with interruptFlag := true, activity := .idle }
  /-- An exception other than a double fault, also one with which `dispatch` or `arm` ends. -/
  | fault {n : Node} (cr2 : Word) (ctx : ExceptionContext)
      (running : ∀ message, n.activity ≠ .panicked message)
      (single : ctx.vector.setWidth 8 ≠ (8 : BitVec 8)) :
      NodeStep text n (.fault cr2 ctx) (n.exception cr2 ctx)

/-- Any steps in any order; the latest event is first. -/
inductive NodeRun (text : StubText) (start : Node) : List NodeEvent → Node → Prop where
  | start : NodeRun text start [] start
  | step {events : List NodeEvent} {n n' : Node} {event : NodeEvent}
      (before : NodeRun text start events n) (next : NodeStep text n event n') :
      NodeRun text start (event :: events) n'

/-- What every step keeps holds after every run. -/
theorem NodeRun.invariant {text : StubText} {start n : Node} {events : List NodeEvent}
    {P : List NodeEvent → Node → Prop} (run : NodeRun text start events n) (initial : P [] start)
    (preserved : ∀ {events n n' event}, P events n → NodeStep text n event n' →
      P (event :: events) n') : P events n := by
  induction run with
  | start => exact initial
  | step _ next inductionHypothesis => exact preserved inductionHypothesis next

end RincOs
