/-
Module: RincOs.Arch.InterruptStubs
Purpose: The entry stubs of `arch/x86_64/src/interrupts/stubs.S` instruction by
  instruction, the context they hand to `interrupts/mod.rs`, and what the
  processor does when it takes an interrupt and at `iretq`.
Trusted boundary: human-reviewed embedding of `stubs.S` and of `ExceptionContext`,
  human-reviewed semantics of interrupt delivery in 64-bit mode
Main exports:
  CpuState, Instr, pushGprs, popGprs, isrNoErr, isrErr, irqStub, StubText,
  ExceptionContext, contextAt, deliver, execInstr, execCode, pushesErrorCode
-/
import RincOs.Arch.Idt

namespace RincOs

/-! ### The processor -/

inductive Gpr
  | rax | rbx | rcx | rdx | rbp | rsi | rdi
  | r8 | r9 | r10 | r11 | r12 | r13 | r14 | r15
deriving DecidableEq

/-- The registers an interrupt can disturb, and the memory that holds the stacks,
one word per 8-byte virtual address. -/
structure CpuState where
  gpr : Gpr → Word
  rsp : Word
  rip : Word
  rflags : Word
  cs : BitVec 16
  ss : BitVec 16
  xmm : Fin 16 → BitVec 128
  mem : VirtAddr → Word

namespace CpuState

def push (s : CpuState) (x : Word) : CpuState :=
  { s with rsp := s.rsp - 8, mem := Function.update s.mem (s.rsp - 8) x }

/-- The word at the stack pointer. -/
def top (s : CpuState) : Word := s.mem s.rsp

def setGpr (s : CpuState) (r : Gpr) (x : Word) : CpuState :=
  { s with gpr := Function.update s.gpr r x }

end CpuState

/-- The exceptions for which the processor pushes an error code. -/
def pushesErrorCode (vec : BitVec 8) : Bool :=
  vec.toNat ∈ [8, 10, 11, 12, 13, 14, 17, 21, 29, 30]

/-- TF, IF, NT, RF and VM, which an interrupt gate clears. -/
def gateClears : Word := 0x34300

/-- The processor takes interrupt `vec` through `entry`.  It switches to `stack`,
which is the interrupted RSP, RSP0 or a stack of the interrupt stack table, aligns
it down to 16 bytes and pushes the interrupted state. -/
def deliver (entry : IdtEntry) (vec : BitVec 8) (stack errorCode : Word) (s : CpuState) :
    CpuState :=
  let aligned : CpuState := { s with rsp := stack &&& ~~~0xf }
  let saved := ((((aligned.push (s.ss.setWidth 64)).push s.rsp).push s.rflags).push
    (s.cs.setWidth 64)).push s.rip
  let saved := if pushesErrorCode vec then saved.push errorCode else saved
  { saved with
    cs := entry.selector
    rip := entry.offset
    rflags := s.rflags &&& ~~~gateClears }

/-! ### The stubs -/

/-- The two functions the stubs call. -/
inductive Dispatcher
  | exceptionDispatch
  | irqDispatch
deriving DecidableEq

/-- The instructions that occur in `stubs.S`. -/
inductive Instr
  | pushReg (r : Gpr)
  | pushImm (x : Word)
  | popReg (r : Gpr)
  | movRdiRsp
  | call (f : Dispatcher)
  | addRsp (n : Word)
  | iretq
deriving DecidableEq

/-- `PUSH_GPRS`. -/
def pushGprs : List Gpr :=
  [.rax, .rbx, .rcx, .rdx, .rbp, .rsi, .rdi, .r8, .r9, .r10, .r11, .r12, .r13, .r14, .r15]

/-- `POP_GPRS`. -/
def popGprs : List Gpr :=
  [.r15, .r14, .r13, .r12, .r11, .r10, .r9, .r8, .rdi, .rsi, .rbp, .rdx, .rcx, .rbx, .rax]

/-- `EXC_COMMON` and `IRQ_COMMON`, which differ in the function they call. -/
def common (f : Dispatcher) : List Instr :=
  pushGprs.map .pushReg ++ [.movRdiRsp, .call f] ++ popGprs.map .popReg ++ [.addRsp 16, .iretq]

def excCommon : List Instr := common .exceptionDispatch

def irqCommon : List Instr := common .irqDispatch

def isrNoErr (vec : Word) : List Instr := [.pushImm 0, .pushImm vec] ++ excCommon

def isrErr (vec : Word) : List Instr := [.pushImm vec] ++ excCommon

/-- `IRQ`. -/
def irqStub (vec : Word) : List Instr := [.pushImm 0, .pushImm vec] ++ irqCommon

/-- `isr_0`, …, `isr_31`. -/
def isrStub (vec : Fin 32) : List Instr :=
  match vec.val with
  | 8 => isrErr 8
  | 10 => isrErr 10
  | 11 => isrErr 11
  | 12 => isrErr 12
  | 13 => isrErr 13
  | 14 => isrErr 14
  | 17 => isrErr 17
  | n => isrNoErr (BitVec.ofNat 64 n)

/-- The stubs as they are linked: the addresses of their labels, and the code
found there. -/
structure StubText where
  isr : Fin 32 → Word
  irq : Fin 16 → Word
  irq224 : Word
  irq225 : Word
  codeAt : Word → List Instr
  isr_linked : ∀ vec, codeAt (isr vec) = isrStub vec
  irq_linked : ∀ i, codeAt (irq i) = irqStub (BitVec.ofNat 64 (32 + i.val))
  irq224_linked : codeAt irq224 = irqStub 224
  irq225_linked : codeAt irq225 = irqStub 225

/-- The table after `init_idt` has run on the static one. -/
def StubText.idt (text : StubText) : Idt :=
  initIdt text.isr text.irq text.irq224 text.irq225 fun _ => .missing

/-! ### Execution -/

/-- One instruction.  A call runs `handler`, which gives the state when the call
returns. -/
def execInstr (handler : Dispatcher → CpuState → CpuState) (s : CpuState) : Instr → CpuState
  | .pushReg r => s.push (s.gpr r)
  | .pushImm x => s.push x
  | .popReg r => { s.setGpr r s.top with rsp := s.rsp + 8 }
  | .movRdiRsp => s.setGpr .rdi s.rsp
  | .call f => handler f s
  | .addRsp n => { s with rsp := s.rsp + n }
  | .iretq =>
      { s with
        rip := s.mem s.rsp
        cs := (s.mem (s.rsp + 8)).setWidth 16
        rflags := s.mem (s.rsp + 16)
        rsp := s.mem (s.rsp + 24)
        ss := (s.mem (s.rsp + 32)).setWidth 16 }

def execCode (handler : Dispatcher → CpuState → CpuState) (code : List Instr) (s : CpuState) :
    CpuState :=
  code.foldl (execInstr handler) s

def Instr.isCall : Instr → Bool
  | .call _ => true
  | _ => false

/-- The state in which the stub calls its dispatcher. -/
def stateAtCall (handler : Dispatcher → CpuState → CpuState) (code : List Instr)
    (s : CpuState) : CpuState :=
  execCode handler (code.takeWhile fun i => !i.isCall) s

/-! ### The context -/

/-- `ExceptionContext`. -/
structure ExceptionContext where
  r15 : Word
  r14 : Word
  r13 : Word
  r12 : Word
  r11 : Word
  r10 : Word
  r9 : Word
  r8 : Word
  rdi : Word
  rsi : Word
  rbp : Word
  rdx : Word
  rcx : Word
  rbx : Word
  rax : Word
  vector : Word
  errorCode : Word
  rip : Word
  cs : Word
  rflags : Word
  rsp : Word
  ss : Word
deriving DecidableEq

/-- The structure a `*mut ExceptionContext` points to. -/
def contextAt (mem : VirtAddr → Word) (ctx : Word) : ExceptionContext :=
  { r15 := mem ctx
    r14 := mem (ctx + 8)
    r13 := mem (ctx + 16)
    r12 := mem (ctx + 24)
    r11 := mem (ctx + 32)
    r10 := mem (ctx + 40)
    r9 := mem (ctx + 48)
    r8 := mem (ctx + 56)
    rdi := mem (ctx + 64)
    rsi := mem (ctx + 72)
    rbp := mem (ctx + 80)
    rdx := mem (ctx + 88)
    rcx := mem (ctx + 96)
    rbx := mem (ctx + 104)
    rax := mem (ctx + 112)
    vector := mem (ctx + 120)
    errorCode := mem (ctx + 128)
    rip := mem (ctx + 136)
    cs := mem (ctx + 144)
    rflags := mem (ctx + 152)
    rsp := mem (ctx + 160)
    ss := mem (ctx + 168) }

end RincOs
