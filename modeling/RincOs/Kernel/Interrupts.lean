/-
Module: RincOs.Kernel.Interrupts
Purpose: From the context an interrupt stub builds to what the kernel does: the
  dispatchers of `arch/x86_64/src/interrupts/mod.rs`, the handler of
  `kernel/src/interrupts.rs` and the text of its panic.
Trusted boundary: human-reviewed embedding of these two files and of
  `crates/hal/src/interrupt.rs`, human-reviewed meaning of `{:?}` and `{:#x}`
Main exports:
  IrqKind, FaultKind, IrqFrame, decodeFaultKind, irqLine, exceptionDispatch,
  irqDispatch, HandlerAction, dispatch, onInterrupt, lowerHex, faultMessage
-/
import RincOs.Arch.InterruptStubs
import Mathlib.Data.Nat.Digits.Defs

namespace RincOs

/-! ### Frames -/

/-- `hal::interrupt::IrqKind`. -/
inductive IrqKind where
  | fault
  | timer
  | external
  | spurious
  | unknown
deriving DecidableEq, Repr

/-- `hal::interrupt::FaultKind`. -/
inductive FaultKind where
  | none
  | pageFault
  | generalProtection
  | invalidOpcode
  | divideByZero
  | doubleFault
  | unknown
deriving DecidableEq, Repr

/-- `hal::interrupt::IrqFrame`. -/
structure IrqFrame where
  kind : IrqKind
  faultKind : FaultKind
  irq : BitVec 16
  errorCode : Word
  faultAddr : Word
deriving DecidableEq

/-- `decode_fault_kind`. -/
def decodeFaultKind (vec : BitVec 8) : FaultKind :=
  match vec.toNat with
  | 0 => .divideByZero
  | 6 => .invalidOpcode
  | 8 => .doubleFault
  | 13 => .generalProtection
  | 14 => .pageFault
  | _ => .unknown

/-- `irq_line`. -/
def irqLine (vec : BitVec 8) : BitVec 16 :=
  if 32 ≤ vec.toNat ∧ vec.toNat < 48 then (vec - 32).setWidth 16 else 0

/-! ### The handler of the kernel -/

/-- The name `{:?}` prints. -/
def FaultKind.debug : FaultKind → List Char
  | .none => "None".toList
  | .pageFault => "PageFault".toList
  | .generalProtection => "GeneralProtection".toList
  | .invalidOpcode => "InvalidOpcode".toList
  | .divideByZero => "DivideByZero".toList
  | .doubleFault => "DoubleFault".toList
  | .unknown => "Unknown".toList

/-- The digits `{:x}` prints, the highest first. -/
def hexDigits (n : Nat) : List Char :=
  if n = 0 then ['0'] else ((Nat.digits 16 n).map Nat.digitChar).reverse

/-- What `{:#x}` prints. -/
def lowerHex (w : Word) : List Char := '0' :: 'x' :: hexDigits w.toNat

/-- The message of `handle_fault`. -/
def faultMessage (frame : IrqFrame) : List Char :=
  "fault ".toList ++ frame.faultKind.debug ++ " err=".toList ++ lowerHex frame.errorCode ++
    " addr=".toList ++ lowerHex frame.faultAddr

/-- What the handler does with a frame. -/
inductive HandlerAction where
  | ignore
  /-- `time::on_timer_tick`. -/
  | tick
  | panic (message : List Char)
deriving DecidableEq

/-- `KernelInterrupts::on_interrupt`. -/
def onInterrupt (frame : IrqFrame) : HandlerAction :=
  match frame.kind with
  | .timer => .tick
  | .fault => .panic (faultMessage frame)
  | .external => .ignore
  | .spurious | .unknown => .ignore

/-- `hal::interrupt::dispatch`; `KernelInterrupts` is the only handler that is ever
registered. -/
def dispatch (handlerSet : Bool) (frame : IrqFrame) : HandlerAction :=
  if !handlerSet then .ignore else onInterrupt frame

/-! ### The dispatchers -/

/-- The frame `exception_dispatch` makes, where CR2 reads `cr2`. -/
def exceptionFrame (cr2 : Word) (ctx : ExceptionContext) : IrqFrame :=
  let vec : BitVec 8 := ctx.vector.setWidth 8
  let faultKind := decodeFaultKind vec
  { kind := .fault
    faultKind := faultKind
    irq := 0
    errorCode := ctx.errorCode
    faultAddr := if faultKind = .pageFault then cr2 else 0 }

/-- `exception_dispatch`. -/
def exceptionDispatch (handlerSet : Bool) (cr2 : Word) (ctx : ExceptionContext) :
    HandlerAction :=
  dispatch handlerSet (exceptionFrame cr2 ctx)

/-- What `irq_dispatch` does before it ends the interrupt. -/
inductive IrqAction where
  /-- `mmu::handle_tlb_shootdown`. -/
  | shootdown
  | handle (action : HandlerAction)
deriving DecidableEq

/-- The frame of an interrupt that is not a shootdown. -/
def irqFrame (ctx : ExceptionContext) : IrqFrame :=
  let vec : BitVec 8 := ctx.vector.setWidth 8
  { kind := if vec = timerVec then .timer else .external
    faultKind := .none
    irq := irqLine vec
    errorCode := ctx.errorCode
    faultAddr := 0 }

/-- `irq_dispatch` up to `apic::eoi`, with which both of its paths end. -/
def irqDispatch (handlerSet : Bool) (ctx : ExceptionContext) : IrqAction :=
  let vec : BitVec 8 := ctx.vector.setWidth 8
  if vec = tlbShootdownVec then .shootdown
  else .handle (dispatch handlerSet (irqFrame ctx))

end RincOs
