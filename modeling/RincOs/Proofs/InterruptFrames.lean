/-
Module: RincOs.Proofs.InterruptFrames
Purpose: What the stubs leave on the stack on top of what the processor pushed,
  what the dispatchers see of it, and what `iretq` gives back.
Trusted boundary: none
Main exports:
  Pushes, execCode_pushRegs, execCode_popRegs, deliver_pushes, stub_linked,
  FrameCorrect, frameCorrect_iff, frameCorrect_pageFault, controlProtection_frame_shifted
-/
import Mathlib.Tactic.Ring
import RincOs.Library.PushStack
import RincOs.Arch.InterruptStubs

namespace RincOs

open PushStack

variable {handler : Dispatcher → CpuState → CpuState} {s s' s'' : CpuState}
variable {xs ys ws : List Word}

/-! ### Pushing -/

/-- From `s` the words `xs` were pushed, the head of the list last, and nothing
else happened. -/
structure Pushes (xs : List Word) (s s' : CpuState) : Prop where
  rest : s' = { s with rsp := s'.rsp, mem := s'.mem }
  rsp : s'.rsp = s.rsp - BitVec.ofNat 64 xs.length * 8
  holds : ∀ ws, (xs.length + ws.length) * 8 < 2 ^ 64 → Holds 8 s.mem s.rsp ws →
    Holds 8 s'.mem s'.rsp (xs ++ ws)
  other : ∀ a, (∀ k < xs.length, a ≠ s.rsp - BitVec.ofNat 64 (k + 1) * 8) →
    s'.mem a = s.mem a

namespace Pushes

theorem refl (s : CpuState) : Pushes [] s s where
  rest := rfl
  rsp := by simp
  holds := fun _ _ holds => holds
  other := fun _ _ => rfl

theorem push (s : CpuState) (x : Word) : Pushes [x] s (s.push x) where
  rest := rfl
  rsp := rfl
  holds := by
    intro ws short holds
    apply holds.push (by decide)
    exact Nat.lt_of_le_of_lt (Nat.mul_le_mul_right 8 (Nat.le_add_left _ 1)) short
  other := by
    intro a apart
    exact Function.update_of_ne (apart 0 Nat.one_pos) _ _

theorem trans (first : Pushes xs s s') (second : Pushes ys s' s'') :
    Pushes (ys ++ xs) s s'' where
  rest := by
    rw [second.rest, first.rest]
  rsp := by
    rw [second.rsp, first.rsp, List.length_append, BitVec.ofNat_add]
    ring
  holds := by
    intro ws short holds
    rw [List.length_append] at short
    rw [List.append_assoc]
    apply second.holds _ (by rw [List.length_append]; omega)
    exact first.holds ws (by omega) holds
  other := by
    intro a apart
    rw [List.length_append] at apart
    rw [second.other a, first.other a]
    · intro k inside
      exact apart k (by omega)
    · intro k inside
      have later := apart (xs.length + k) (by omega)
      rw [first.rsp]
      intro same
      apply later
      have sum : BitVec.ofNat 64 (xs.length + k + 1) =
          BitVec.ofNat 64 xs.length + BitVec.ofNat 64 (k + 1) := BitVec.ofNat_add _ (k + 1)
      rw [same, sum]
      ring

end Pushes

theorem execCode_append (a b : List Instr) (s : CpuState) :
    execCode handler (a ++ b) s = execCode handler b (execCode handler a s) :=
  List.foldl_append

theorem execCode_pushImms (xs : List Word) (s : CpuState) :
    Pushes xs.reverse s (execCode handler (xs.map .pushImm) s) := by
  induction xs generalizing s with
  | nil => exact Pushes.refl s
  | cons x xs inductionHypothesis =>
      rw [List.reverse_cons]
      exact (Pushes.push s x).trans (inductionHypothesis (s.push x))

theorem execCode_pushRegs (regs : List Gpr) (s : CpuState) :
    Pushes (regs.reverse.map s.gpr) s (execCode handler (regs.map .pushReg) s) := by
  induction regs generalizing s with
  | nil => exact Pushes.refl s
  | cons r regs inductionHypothesis =>
      rw [List.reverse_cons, List.map_append]
      exact (Pushes.push s (s.gpr r)).trans (inductionHypothesis (s.push (s.gpr r)))

/-! ### Popping -/

/-- Popping registers from words that are the values of `old` restores `old` there. -/
theorem execCode_popRegs {regs : List Gpr} {old : Gpr → Word} (s : CpuState)
    (holds : Holds 8 s.mem s.rsp (regs.map old ++ ws)) :
    execCode handler (regs.map .popReg) s =
        { s with
          gpr := fun r => if r ∈ regs then old r else s.gpr r
          rsp := s.rsp + BitVec.ofNat 64 regs.length * 8 } ∧
      Holds 8 s.mem (s.rsp + BitVec.ofNat 64 regs.length * 8) ws := by
  induction regs generalizing s with
  | nil => simpa [execCode] using holds
  | cons r regs inductionHypothesis =>
      obtain ⟨first, rest⟩ := holds
      have place : s.rsp + 8 + BitVec.ofNat 64 regs.length * 8 =
          s.rsp + BitVec.ofNat 64 (r :: regs).length * 8 := by
        have sum : BitVec.ofNat 64 (r :: regs).length = BitVec.ofNat 64 regs.length + 1 :=
          BitVec.ofNat_add _ 1
        rw [sum]
        ring
      obtain ⟨popped, left⟩ :=
        inductionHypothesis { s.setGpr r s.top with rsp := s.rsp + 8 } rest
      change Holds 8 s.mem (s.rsp + 8 + _) ws at left
      rw [place] at left
      refine ⟨?_, left⟩
      change execCode handler (regs.map .popReg) { s.setGpr r s.top with rsp := s.rsp + 8 } = _
      rw [popped]
      simp only [CpuState.setGpr, CpuState.top, first, place, CpuState.mk.injEq, and_true]
      funext r'
      by_cases later : r' ∈ regs
      · simp [later]
      · by_cases same : r' = r
        · simp [same]
        · simp [later, same]

/-! ### Contexts -/

namespace ExceptionContext

/-- The fields in the order of declaration. -/
def words (c : ExceptionContext) : List Word :=
  [c.r15, c.r14, c.r13, c.r12, c.r11, c.r10, c.r9, c.r8, c.rdi, c.rsi, c.rbp, c.rdx, c.rcx,
    c.rbx, c.rax, c.vector, c.errorCode, c.rip, c.cs, c.rflags, c.rsp, c.ss]

end ExceptionContext

theorem contextAt_eq_iff {mem : VirtAddr → Word} {p : Word} {c : ExceptionContext} :
    contextAt mem p = c ↔ Holds 8 mem p c.words := by
  cases c
  simp only [contextAt, ExceptionContext.words, Holds, BitVec.add_assoc, and_true,
    ExceptionContext.mk.injEq]
  rfl

/-! ### Entry -/

/-- What the processor pushes, the word at the stack pointer first. -/
def interruptWords (vec : BitVec 8) (errorCode : Word) (s : CpuState) : List Word :=
  (if pushesErrorCode vec then [errorCode] else []) ++
    [s.rip, s.cs.setWidth 64, s.rflags, s.rsp, s.ss.setWidth 64]

/-- The state in which the processor begins to push: it runs at the gate's handler,
on the stack it has chosen. -/
def enterGate (entry : IdtEntry) (stack : Word) (s : CpuState) : CpuState :=
  { s with
    rsp := stack &&& ~~~0xf
    cs := entry.selector
    rip := entry.offset
    rflags := s.rflags &&& ~~~gateClears }

theorem deliver_eq (entry : IdtEntry) (vec : BitVec 8) (stack errorCode : Word)
    (s : CpuState) :
    deliver entry vec stack errorCode s =
      let saved := (((((enterGate entry stack s).push (s.ss.setWidth 64)).push s.rsp).push
        s.rflags).push (s.cs.setWidth 64)).push s.rip
      if pushesErrorCode vec then saved.push errorCode else saved := by
  simp only [deliver, enterGate, CpuState.push]
  split <;> simp only

theorem deliver_pushes (entry : IdtEntry) (vec : BitVec 8) (stack errorCode : Word)
    (s : CpuState) :
    Pushes (interruptWords vec errorCode s) (enterGate entry stack s)
      (deliver entry vec stack errorCode s) := by
  have five := ((((Pushes.push (enterGate entry stack s) (s.ss.setWidth 64)).trans
    (Pushes.push _ s.rsp)).trans (Pushes.push _ s.rflags)).trans
    (Pushes.push _ (s.cs.setWidth 64))).trans (Pushes.push _ s.rip)
  rw [deliver_eq, interruptWords]
  split
  · exact five.trans (Pushes.push _ errorCode)
  · exact five

/-- What the stub of `vec` pushes before the registers. -/
def stubImms (vec : BitVec 8) : List Word :=
  if vec.toNat ∈ [8, 10, 11, 12, 13, 14, 17] then [vec.setWidth 64] else [0, vec.setWidth 64]

def dispatcherOf (vec : BitVec 8) : Dispatcher :=
  if vec.toNat < 32 then .exceptionDispatch else .irqDispatch

/-- The shape all stubs share. -/
def stubCode (imms : List Word) (f : Dispatcher) : List Instr := imms.map .pushImm ++ common f

theorem isrStub_eq (vec : Fin 32) :
    isrStub vec = stubCode (stubImms (BitVec.ofNat 8 vec.val)) .exceptionDispatch := by
  revert vec
  decide

theorem irqStub_eq (i : Fin 16) :
    irqStub (BitVec.ofNat 64 (32 + i.val)) =
      stubCode (stubImms (BitVec.ofNat 8 (32 + i.val))) .irqDispatch := by
  revert i
  decide

/-- The vectors `init_idt` installs. -/
theorem installed_cases {text : StubText} {vec : BitVec 8}
    (installed : (text.idt vec).isPresent = true) :
    (∃ v : Fin 32, vec = BitVec.ofNat 8 v.val) ∨
      (∃ i : Fin 16, vec = BitVec.ofNat 8 (32 + i.val)) ∨
      vec = timerVec ∨ vec = tlbShootdownVec := by
  rcases Nat.lt_or_ge vec.toNat 32 with exception | notException
  · exact .inl (exists_exceptionVec exception)
  rcases Nat.lt_or_ge vec.toNat 48 with irq | notTable
  · exact .inr (.inl (exists_irqVec notException irq))
  by_cases timer : vec = timerVec
  · exact .inr (.inr (.inl timer))
  by_cases shootdown : vec = tlbShootdownVec
  · exact .inr (.inr (.inr shootdown))
  rw [StubText.idt, initIdt_other _ _ _ _ _ notTable timer shootdown] at installed
  exact absurd installed (by decide)

/-- The code the processor finds when it takes an installed vector. -/
theorem stub_linked {text : StubText} {vec : BitVec 8}
    (installed : (text.idt vec).isPresent = true) :
    text.codeAt (text.idt vec).offset = stubCode (stubImms vec) (dispatcherOf vec) := by
  rcases installed_cases installed with ⟨v, rfl⟩ | ⟨i, rfl⟩ | rfl | rfl
  · clear installed
    have isException : dispatcherOf (BitVec.ofNat 8 v.val) = .exceptionDispatch := by
      revert v; decide
    rw [StubText.idt, initIdt_exception, offset_gate, text.isr_linked, isrStub_eq, isException]
  · clear installed
    have isIrq : dispatcherOf (BitVec.ofNat 8 (32 + i.val)) = .irqDispatch := by
      revert i; decide
    rw [StubText.idt, initIdt_irq, offset_gate, text.irq_linked, irqStub_eq, isIrq]
  · rw [StubText.idt, initIdt_timer, offset_gate, text.irq224_linked]
    decide
  · rw [StubText.idt, initIdt_shootdown, offset_gate, text.irq225_linked]
    decide

/-! ### Through the stub -/

theorem takeWhile_stubCode (imms : List Word) (f : Dispatcher) :
    (stubCode imms f).takeWhile (fun i => !i.isCall) =
      imms.map .pushImm ++ (pushGprs.map .pushReg ++ [.movRdiRsp]) := by
  induction imms with
  | nil => cases f <;> rfl
  | cons x imms inductionHypothesis =>
      rw [stubCode, List.map_cons, List.cons_append, List.takeWhile_cons_of_pos rfl]
      exact congrArg (List.cons _) inductionHypothesis

theorem find_call_stubCode (imms : List Word) (f : Dispatcher) :
    (stubCode imms f).find? Instr.isCall = some (.call f) := by
  induction imms with
  | nil => cases f <;> rfl
  | cons x imms inductionHypothesis => exact inductionHypothesis

/-- At the call the registers lie on top of what the stub pushed first, and RDI
points to them. -/
theorem stateAtCall_stubCode (imms : List Word) (f : Dispatcher) (s : CpuState) :
    ∃ p, Pushes (popGprs.map s.gpr ++ imms.reverse) s p ∧
      stateAtCall handler (stubCode imms f) s = p.setGpr .rdi p.rsp := by
  have immediates := @execCode_pushImms handler imms s
  have registers := @execCode_pushRegs handler pushGprs (execCode handler (imms.map .pushImm) s)
  have sameRegisters : (execCode handler (imms.map .pushImm) s).gpr = s.gpr := by
    rw [immediates.rest]
  rw [sameRegisters] at registers
  refine ⟨_, immediates.trans registers, ?_⟩
  rw [stateAtCall, takeWhile_stubCode, execCode_append, execCode_append]
  rfl

/-- The stub runs to its call, the dispatcher runs, and the rest of the stub runs. -/
theorem execCode_stubCode (imms : List Word) (f : Dispatcher) (s : CpuState) :
    execCode handler (stubCode imms f) s =
      execCode handler (popGprs.map .popReg ++ [.addRsp 16, .iretq])
        (handler f (stateAtCall handler (stubCode imms f) s)) := by
  have split : stubCode imms f =
      (imms.map .pushImm ++ (pushGprs.map .pushReg ++ [.movRdiRsp])) ++
        ([.call f] ++ (popGprs.map .popReg ++ [.addRsp 16, .iretq])) := by
    simp only [stubCode, common, List.append_assoc, List.cons_append, List.nil_append]
  rw [stateAtCall, takeWhile_stubCode, split, execCode_append, execCode_append]
  rfl

theorem mem_popGprs (r : Gpr) : r ∈ popGprs := by
  cases r <;> decide

theorem execInstr_iretq {rip cs rflags rsp ss : Word} {s : CpuState}
    (holds : Holds 8 s.mem s.rsp [rip, cs, rflags, rsp, ss]) :
    execInstr handler s .iretq =
      { s with
        rip := rip
        cs := cs.setWidth 16
        rflags := rflags
        rsp := rsp
        ss := ss.setWidth 16 } := by
  simp only [Holds, BitVec.add_assoc] at holds
  obtain ⟨isRip, isCs, isFlags, isRsp, isSs, -⟩ := holds
  rw [← isRip, ← isCs, ← isFlags, ← isRsp, ← isSs]
  rfl

/-- On a frame of 22 words the rest of the stub gives back what is in it. -/
theorem execCode_return {old : Gpr → Word} {vector errorCode rip cs rflags rsp ss : Word}
    (s : CpuState)
    (holds : Holds 8 s.mem s.rsp
      (popGprs.map old ++ [vector, errorCode, rip, cs, rflags, rsp, ss])) :
    execCode handler (popGprs.map .popReg ++ [.addRsp 16, .iretq]) s =
      { s with
        gpr := old
        rip := rip
        cs := cs.setWidth 16
        rflags := rflags
        rsp := rsp
        ss := ss.setWidth 16 } := by
  obtain ⟨popped, left⟩ := @execCode_popRegs handler _ popGprs old s holds
  obtain ⟨-, -, frame⟩ := left
  have allPopped : (fun r => if r ∈ popGprs then old r else s.gpr r) = old := by
    funext r
    rw [if_pos (mem_popGprs r)]
  rw [BitVec.add_assoc _ (8 : Word) 8] at frame
  rw [execCode_append, popped, allPopped]
  exact @execInstr_iretq handler _ _ _ _ _ _ frame

/-! ### Correct frames -/

/-- The context of an interrupt: what the interrupted code had in its registers,
the vector, and the error code or 0. -/
def interruptedContext (vec : BitVec 8) (errorCode : Word) (s : CpuState) : ExceptionContext :=
  { r15 := s.gpr .r15
    r14 := s.gpr .r14
    r13 := s.gpr .r13
    r12 := s.gpr .r12
    r11 := s.gpr .r11
    r10 := s.gpr .r10
    r9 := s.gpr .r9
    r8 := s.gpr .r8
    rdi := s.gpr .rdi
    rsi := s.gpr .rsi
    rbp := s.gpr .rbp
    rdx := s.gpr .rdx
    rcx := s.gpr .rcx
    rbx := s.gpr .rbx
    rax := s.gpr .rax
    vector := vec.setWidth 64
    errorCode := if pushesErrorCode vec then errorCode else 0
    rip := s.rip
    cs := s.cs.setWidth 64
    rflags := s.rflags
    rsp := s.rsp
    ss := s.ss.setWidth 64 }

/-- The call returns with its stack pointer and leaves the context unchanged. -/
def LeavesContext (handler : Dispatcher → CpuState → CpuState) (f : Dispatcher)
    (s : CpuState) : Prop :=
  (handler f s).rsp = s.rsp ∧ contextAt (handler f s).mem s.rsp = contextAt s.mem s.rsp

section

variable (text : StubText) (vec : BitVec 8) (stack errorCode : Word) (s : CpuState)
variable (handler : Dispatcher → CpuState → CpuState)

/-- The state in which the processor begins with the stub of `vec`. -/
def entered : CpuState := deliver (text.idt vec) vec stack errorCode s

/-- The stub that runs. -/
def stubOf : List Instr := text.codeAt (entered text vec stack errorCode s).rip

/-- The state in which the stub calls its dispatcher. -/
def atCall : CpuState :=
  stateAtCall handler (stubOf text vec stack errorCode s) (entered text vec stack errorCode s)

/-- The state after the stub's `iretq`. -/
def returned : CpuState :=
  execCode handler (stubOf text vec stack errorCode s) (entered text vec stack errorCode s)

/-- The frame of one interrupt is decoded correctly. -/
structure FrameCorrect : Prop where
  /-- The stub calls the dispatcher for the kind of the vector. -/
  called : (stubOf text vec stack errorCode s).find? Instr.isCall =
    some (.call (dispatcherOf vec))
  context : contextAt (atCall text vec stack errorCode s handler).mem
      ((atCall text vec stack errorCode s handler).gpr .rdi) =
    interruptedContext vec errorCode s
  aligned : (atCall text vec stack errorCode s handler).rsp.toNat % 16 = 0
  restored : LeavesContext handler (dispatcherOf vec) (atCall text vec stack errorCode s handler) →
    ∃ xmm mem, returned text vec stack errorCode s handler = { s with xmm := xmm, mem := mem }

variable {text vec}

theorem stubOf_eq (installed : (text.idt vec).isPresent = true) :
    stubOf text vec stack errorCode s = stubCode (stubImms vec) (dispatcherOf vec) := by
  have isRip : (entered text vec stack errorCode s).rip = (text.idt vec).offset := by
    rw [entered, (deliver_pushes (text.idt vec) vec stack errorCode s).rest]
    rfl
  rw [stubOf, isRip, stub_linked installed]

/-- All that lies on the chosen stack at the call. -/
theorem atCall_pushes (installed : (text.idt vec).isPresent = true) :
    ∃ p, Pushes (popGprs.map s.gpr ++ (stubImms vec).reverse ++ interruptWords vec errorCode s)
        (enterGate (text.idt vec) stack s) p ∧
      atCall text vec stack errorCode s handler = p.setGpr .rdi p.rsp := by
  have delivered := deliver_pushes (text.idt vec) vec stack errorCode s
  have isGpr : (entered text vec stack errorCode s).gpr = s.gpr := by
    rw [entered, delivered.rest]
    rfl
  obtain ⟨p, pushed, isCall⟩ := @stateAtCall_stubCode handler (stubImms vec) (dispatcherOf vec)
    (entered text vec stack errorCode s)
  rw [isGpr] at pushed
  refine ⟨p, delivered.trans pushed, ?_⟩
  rw [atCall, stubOf_eq stack errorCode s installed, isCall]

/-- The stubs and the processor agree on which exceptions have an error code,
with three exceptions. -/
theorem errorStub_iff (vec : BitVec 8) :
    vec.toNat ∈ [8, 10, 11, 12, 13, 14, 17] ↔
      pushesErrorCode vec = true ∧ vec.toNat ∉ [21, 29, 30] := by
  revert vec
  decide +kernel

/-- The words of the frame, where the stub and the processor agree on the error code. -/
theorem frameWords_eq (agree : vec.toNat ∉ [21, 29, 30]) :
    popGprs.map s.gpr ++ (stubImms vec).reverse ++ interruptWords vec errorCode s =
      (interruptedContext vec errorCode s).words := by
  by_cases pushes : pushesErrorCode vec = true
  · have code := (errorStub_iff vec).mpr ⟨pushes, agree⟩
    simp only [stubImms, interruptWords, interruptedContext, if_pos code, if_pos pushes]
    rfl
  · have noCode : vec.toNat ∉ [8, 10, 11, 12, 13, 14, 17] :=
      fun code => pushes ((errorStub_iff vec).mp code).1
    simp only [stubImms, interruptWords, interruptedContext, if_neg noCode, if_neg pushes]
    rfl

/-- The words of the frame, where the processor pushes an error code and the stub a 0. -/
theorem length_frameWords_of_disagree (disagree : vec.toNat ∈ [21, 29, 30]) :
    (popGprs.map s.gpr ++ (stubImms vec).reverse ++ interruptWords vec errorCode s).length =
      23 := by
  have noCode : vec.toNat ∉ [8, 10, 11, 12, 13, 14, 17] :=
    fun code => ((errorStub_iff vec).mp code).2 disagree
  have pushes : pushesErrorCode vec = true := by
    clear noCode
    revert vec
    decide +kernel
  simp only [stubImms, interruptWords, if_neg noCode, if_pos pushes]
  rfl

/-- An even number of words below a 16-byte boundary is such a boundary. -/
theorem aligned_sub_iff (stack : Word) {n : Nat} (short : n * 8 < 2 ^ 64) :
    ((stack &&& ~~~0xf) - BitVec.ofNat 64 n * 8).toNat % 16 = 0 ↔ n % 2 = 0 := by
  have down : (stack &&& ~~~0xf).toNat = stack.toNat % 2 ^ 64 / 2 ^ 4 * 2 ^ 4 :=
    @WordField.toNat_and_fieldMask 64 stack 4 64 (by decide) (by decide)
  have depth : (BitVec.ofNat 64 n * 8).toNat = n * 8 := by
    rw [BitVec.toNat_mul, BitVec.toNat_ofNat, Nat.mod_mul_mod]
    exact Nat.mod_eq_of_lt short
  have range := stack.isLt
  rw [BitVec.toNat_sub, down, depth]
  omega

theorem returned_eq (installed : (text.idt vec).isPresent = true) :
    returned text vec stack errorCode s handler =
      execCode handler (popGprs.map .popReg ++ [.addRsp 16, .iretq])
        (handler (dispatcherOf vec) (atCall text vec stack errorCode s handler)) := by
  rw [returned, atCall, stubOf_eq stack errorCode s installed, execCode_stubCode]

/-- The frame at the call, where the stub and the processor agree. -/
theorem atCall_holds (installed : (text.idt vec).isPresent = true)
    (agree : vec.toNat ∉ [21, 29, 30]) :
    Holds 8 (atCall text vec stack errorCode s handler).mem
      (atCall text vec stack errorCode s handler).rsp
      (interruptedContext vec errorCode s).words := by
  obtain ⟨p, pushed, isCall⟩ := atCall_pushes stack errorCode s handler installed
  rw [frameWords_eq errorCode s agree] at pushed
  have short : 22 * 8 < 2 ^ 64 := by decide
  have holds := pushed.holds [] short trivial
  rw [List.append_nil] at holds
  rw [isCall]
  exact holds

/-- After `iretq`, if the dispatcher has left the context alone. -/
theorem returned_restored (installed : (text.idt vec).isPresent = true)
    (agree : vec.toNat ∉ [21, 29, 30])
    (leaves : LeavesContext handler (dispatcherOf vec)
      (atCall text vec stack errorCode s handler)) :
    returned text vec stack errorCode s handler =
      { s with
        xmm := (handler (dispatcherOf vec) (atCall text vec stack errorCode s handler)).xmm
        mem := (handler (dispatcherOf vec) (atCall text vec stack errorCode s handler)).mem } := by
  have holds := atCall_holds stack errorCode s handler installed agree
  have kept := contextAt_eq_iff.mp (leaves.2.trans (contextAt_eq_iff.mpr holds))
  rw [← leaves.1] at kept
  have back := @execCode_return handler s.gpr _ _ _ _ _ _ _ _ kept
  rw [returned_eq stack errorCode s handler installed, back]
  simp [interruptedContext]

/-- The frame is decoded correctly for every installed vector but 21, 29 and 30. -/
theorem frameCorrect_iff (installed : (text.idt vec).isPresent = true) :
    FrameCorrect text vec stack errorCode s handler ↔ vec.toNat ∉ [21, 29, 30] := by
  obtain ⟨p, pushed, isCall⟩ := atCall_pushes stack errorCode s handler installed
  have isRsp : (atCall text vec stack errorCode s handler).rsp = p.rsp := by
    rw [isCall]
    rfl
  constructor
  · intro correct disagree
    have aligned := correct.aligned
    rw [isRsp, pushed.rsp, length_frameWords_of_disagree errorCode s disagree] at aligned
    exact absurd ((aligned_sub_iff stack (by decide)).mp aligned) (by decide)
  · intro agree
    have holds := atCall_holds stack errorCode s handler installed agree
    constructor
    · rw [stubOf_eq stack errorCode s installed, find_call_stubCode]
    · have isRdi : (atCall text vec stack errorCode s handler).gpr .rdi =
          (atCall text vec stack errorCode s handler).rsp := by
        rw [isCall]
        rfl
      rw [isRdi]
      exact contextAt_eq_iff.mpr holds
    · have length : (interruptedContext vec errorCode s).words.length = 22 := rfl
      rw [isRsp, pushed.rsp, frameWords_eq errorCode s agree, length]
      exact (aligned_sub_iff stack (by decide)).mpr rfl
    · intro leaves
      exact ⟨_, _, returned_restored stack errorCode s handler installed agree leaves⟩

end

/-- The stubs linked so that each stands at the address that is its vector. -/
def lowText : StubText where
  isr := fun vec => BitVec.ofNat 64 vec.val
  irq := fun i => BitVec.ofNat 64 (32 + i.val)
  irq224 := 224
  irq225 := 225
  codeAt := fun a => if low : a.toNat < 32 then isrStub ⟨a.toNat, low⟩ else irqStub a
  isr_linked := by decide
  irq_linked := by decide
  irq224_linked := by decide
  irq225_linked := by decide

/-- Kernel code about to execute the instruction at 0x1000. -/
def kernelCode : CpuState :=
  { gpr := fun _ => 7, rsp := 0x8004, rip := 0x1000, rflags := 0x202, cs := 0x08, ss := 0x10
    xmm := fun _ => 0, mem := fun _ => 0 }

theorem frameCorrect_pageFault :
    FrameCorrect lowText 14 kernelCode.rsp 2 kernelCode (fun _ s => s) :=
  (frameCorrect_iff kernelCode.rsp 2 kernelCode (fun _ s => s) (by decide +kernel)).mpr
    (by decide)

/-- A control protection exception with error code 3: the dispatcher is told that the
error code is 0 and that the fault was at address 3, with RSP misaligned, and `iretq`
goes to address 3. -/
theorem controlProtection_frame_shifted :
    let s := atCall lowText 21 kernelCode.rsp 3 kernelCode (fun _ s => s)
    (lowText.idt 21).isPresent = true ∧
      ¬ FrameCorrect lowText 21 kernelCode.rsp 3 kernelCode (fun _ s => s) ∧
      s.rsp.toNat % 16 = 8 ∧ (contextAt s.mem s.rsp).errorCode = 0 ∧
      (contextAt s.mem s.rsp).rip = 3 ∧ (contextAt s.mem s.rsp).cs = 0x1000 ∧
      (returned lowText 21 kernelCode.rsp 3 kernelCode (fun _ s => s)).rip = 3 := by
  intro s
  have misaligned : s.rsp.toNat % 16 = 8 := by
    decide +kernel
  have shifted : (contextAt s.mem s.rsp).errorCode = 0 ∧ (contextAt s.mem s.rsp).rip = 3 ∧
      (contextAt s.mem s.rsp).cs = 0x1000 := by
    decide +kernel
  have astray : (returned lowText 21 kernelCode.rsp 3 kernelCode (fun _ s => s)).rip = 3 := by
    decide +kernel
  refine ⟨by decide +kernel, ?_, misaligned, shifted.1, shifted.2.1, shifted.2.2, astray⟩
  intro correct
  have aligned : s.rsp.toNat % 16 = 0 := correct.aligned
  omega

end RincOs
