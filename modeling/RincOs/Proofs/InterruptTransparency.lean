/-
Module: RincOs.Proofs.InterruptTransparency
Purpose: What an IRQ leaves of the interrupted register file, and what that means
  for a straight-line computation interrupted at any of its points.
Trusted boundary: none
Main exports:
  IsIrq, SystemV, KeepsXmm, Agree, Computes, Interrupted, Transparent,
  transparent_iff, transparent_clobbering, transparent_fails_clearing
-/
import RincOs.Proofs.InterruptFrames
import Mathlib.Data.Set.Basic

namespace RincOs

/-- The vectors whose stubs call `irq_dispatch`. -/
def IsIrq (vec : BitVec 8) : Prop :=
  32 ≤ vec.toNat ∧ vec.toNat < 48 ∨ vec = timerVec ∨ vec = tlbShootdownVec

/-- The System V ABI for `irq_dispatch`, which only reads its argument: RSP and the
callee-saved registers keep their values, the context keeps its contents. -/
structure SystemV (handler : Dispatcher → CpuState → CpuState) : Prop where
  rsp : ∀ s, (handler .irqDispatch s).rsp = s.rsp
  calleeSaved : ∀ s, ∀ r ∈ [Gpr.rbx, .rbp, .r12, .r13, .r14, .r15],
    (handler .irqDispatch s).gpr r = s.gpr r
  context : ∀ s, contextAt (handler .irqDispatch s).mem s.rsp = contextAt s.mem s.rsp

variable {text : StubText} {handler : Dispatcher → CpuState → CpuState}
variable {vec : BitVec 8} {stack errorCode : Word} {s s' t : CpuState}

/-! ### One interrupt -/

theorem IsIrq.installed (irq : IsIrq vec) : (text.idt vec).isPresent = true := by
  rcases irq with ⟨low, high⟩ | rfl | rfl
  · obtain ⟨i, rfl⟩ := exists_irqVec low high
    rw [StubText.idt, initIdt_irq, isPresent_gate]
  · rw [StubText.idt, initIdt_timer, isPresent_gate]
  · rw [StubText.idt, initIdt_shootdown, isPresent_gate]

theorem IsIrq.high (irq : IsIrq vec) : 32 ≤ vec.toNat := by
  rcases irq with ⟨low, -⟩ | rfl | rfl
  · exact low
  · decide
  · decide

theorem IsIrq.dispatcher (irq : IsIrq vec) : dispatcherOf vec = .irqDispatch :=
  if_neg (Nat.not_lt.mpr irq.high)

theorem IsIrq.agree (irq : IsIrq vec) : vec.toNat ∉ [21, 29, 30] := by
  have high := irq.high
  simp only [List.mem_cons, List.not_mem_nil, or_false]
  omega

theorem IsIrq.length_frameWords (irq : IsIrq vec) (errorCode : Word) (s : CpuState) :
    (popGprs.map s.gpr ++ (stubImms vec).reverse ++ interruptWords vec errorCode s).length =
      22 := by
  rw [frameWords_eq errorCode s irq.agree]
  rfl

theorem atCall_xmm (irq : IsIrq vec) :
    (atCall text vec stack errorCode s handler).xmm = s.xmm := by
  obtain ⟨p, pushed, isCall⟩ := atCall_pushes stack errorCode s handler irq.installed
  rw [isCall, pushed.rest]
  rfl

/-- An IRQ gives back every register but those the dispatcher leaves in XMM. -/
theorem returned_irq (abi : SystemV handler) (irq : IsIrq vec) :
    returned text vec stack errorCode s handler =
      { s with
        xmm := (handler .irqDispatch (atCall text vec stack errorCode s handler)).xmm
        mem := (handler .irqDispatch (atCall text vec stack errorCode s handler)).mem } := by
  have back := @returned_restored text vec stack errorCode s handler irq.installed irq.agree
  rw [irq.dispatcher] at back
  exact back ⟨abi.rsp _, abi.context _⟩

/-- Memory outside the frame of the interrupt is what the dispatcher makes of it. -/
theorem atCall_mem (irq : IsIrq vec) {a : VirtAddr}
    (outside : ∀ k < 22, a ≠ (stack &&& ~~~0xf) - BitVec.ofNat 64 (k + 1) * 8) :
    (atCall text vec stack errorCode s handler).mem a = s.mem a := by
  obtain ⟨p, pushed, isCall⟩ := atCall_pushes stack errorCode s handler irq.installed
  rw [isCall]
  apply pushed.other
  rw [irq.length_frameWords]
  exact outside

/-! ### Interrupted computations -/

/-- The same registers, and the same memory where it is live. -/
def Agree (live : Set VirtAddr) (s s' : CpuState) : Prop :=
  s' = { s with mem := s'.mem } ∧ ∀ a ∈ live, s'.mem a = s.mem a

theorem Agree.refl (live : Set VirtAddr) (s : CpuState) : Agree live s s :=
  ⟨rfl, fun _ _ => rfl⟩

theorem Agree.trans {live : Set VirtAddr} (first : Agree live s s') (second : Agree live s' t) :
    Agree live s t := by
  obtain ⟨registers, memory⟩ := first
  obtain ⟨registers', memory'⟩ := second
  refine ⟨?_, fun a isLive => (memory' a isLive).trans (memory a isLive)⟩
  rw [registers', registers]

/-- A step of a straight-line computation, with the memory that is live before it. -/
structure Step where
  live : Set VirtAddr
  run : CpuState → CpuState

/-- The memory that is live before the first of the steps. -/
def liveAt (final : Set VirtAddr) : List Step → Set VirtAddr
  | [] => final
  | step :: _ => step.live

/-- Every step computes the registers and the live memory after it from the registers
and the live memory before it. -/
def Computes (final : Set VirtAddr) : List Step → Prop
  | [] => True
  | step :: steps =>
      (∀ s s', Agree step.live s s' →
        Agree (liveAt final steps) (step.run s) (step.run s')) ∧
      Computes final steps

/-- The computation without interruption. -/
def uninterrupted (steps : List Step) (s : CpuState) : CpuState :=
  steps.foldl (fun s step => step.run s) s

/-- The interrupt writes no live word: neither its frame nor the dispatcher does. -/
def SparesLive (text : StubText) (handler : Dispatcher → CpuState → CpuState) (vec : BitVec 8)
    (stack errorCode : Word) (s : CpuState) (live : Set VirtAddr) : Prop :=
  ∀ a ∈ live, (∀ k < 22, a ≠ (stack &&& ~~~0xf) - BitVec.ofNat 64 (k + 1) * 8) ∧
    (handler .irqDispatch (atCall text vec stack errorCode s handler)).mem a =
      (atCall text vec stack errorCode s handler).mem a

/-- The computation with IRQs taken before any of its steps or after the last, as often
as they come. -/
inductive Interrupted (text : StubText) (handler : Dispatcher → CpuState → CpuState)
    (final : Set VirtAddr) : List Step → CpuState → CpuState → Prop
  | done (s : CpuState) : Interrupted text handler final [] s s
  | step {step : Step} {steps : List Step} {s s' : CpuState} :
      Interrupted text handler final steps (step.run s) s' →
      Interrupted text handler final (step :: steps) s s'
  | irq {steps : List Step} {s s' : CpuState} {vec : BitVec 8} (stack errorCode : Word) :
      IsIrq vec →
      SparesLive text handler vec stack errorCode s (liveAt final steps) →
      Interrupted text handler final steps (returned text vec stack errorCode s handler) s' →
      Interrupted text handler final steps s s'

/-- IRQs are invisible: to the register file at any point, and to any straight-line
computation interrupted at any points. -/
structure Transparent (text : StubText) (handler : Dispatcher → CpuState → CpuState) :
    Prop where
  registers : ∀ vec, IsIrq vec → ∀ stack errorCode s,
    ∃ mem, returned text vec stack errorCode s handler = { s with mem := mem }
  computations : ∀ final steps s s', Computes final steps →
    Interrupted text handler final steps s s' → Agree final (uninterrupted steps s) s'

/-- The dispatcher leaves the XMM registers alone whenever an IRQ stub calls it. -/
def KeepsXmm (text : StubText) (handler : Dispatcher → CpuState → CpuState) : Prop :=
  ∀ vec, IsIrq vec → ∀ stack errorCode s,
    (handler .irqDispatch (atCall text vec stack errorCode s handler)).xmm =
      (atCall text vec stack errorCode s handler).xmm

theorem keepsXmm_of_xmm (text : StubText)
    (kept : ∀ s, (handler .irqDispatch s).xmm = s.xmm) : KeepsXmm text handler :=
  fun _ _ _ _ _ => kept _

theorem KeepsXmm.returned (keeps : KeepsXmm text handler) (abi : SystemV handler)
    (irq : IsIrq vec) :
    returned text vec stack errorCode s handler =
      { s with
        mem := (handler .irqDispatch (atCall text vec stack errorCode s handler)).mem } := by
  rw [returned_irq abi irq, keeps vec irq, atCall_xmm irq]

theorem KeepsXmm.agree {live : Set VirtAddr} (keeps : KeepsXmm text handler)
    (abi : SystemV handler) (irq : IsIrq vec)
    (spares : SparesLive text handler vec stack errorCode s live) :
    Agree live s (RincOs.returned text vec stack errorCode s handler) := by
  rw [keeps.returned abi irq]
  refine ⟨rfl, ?_⟩
  intro a isLive
  obtain ⟨outside, kept⟩ := spares a isLive
  exact kept.trans (atCall_mem irq outside)

/-- The run lemma: an interrupted run from a state that agrees with `s` ends in one that
agrees with what `s` computes. -/
theorem Interrupted.agree {final : Set VirtAddr} {steps : List Step}
    (keeps : KeepsXmm text handler) (abi : SystemV handler)
    (run : Interrupted text handler final steps t s') (computes : Computes final steps)
    (agree : Agree (liveAt final steps) s t) : Agree final (uninterrupted steps s) s' := by
  induction run generalizing s with
  | done t => exact agree
  | step run inductionHypothesis =>
      obtain ⟨here, later⟩ := computes
      exact inductionHypothesis later (here _ _ agree)
  | irq stack errorCode irq spares run inductionHypothesis =>
      exact inductionHypothesis computes (agree.trans (keeps.agree abi irq spares))

/-- For any dispatcher within the ABI, IRQs are invisible if and only if the dispatcher
does not touch XMM: the stubs save no XMM register. -/
theorem transparent_iff (abi : SystemV handler) :
    Transparent text handler ↔ KeepsXmm text handler := by
  constructor
  · intro transparent vec irq stack errorCode s
    obtain ⟨mem, back⟩ := transparent.registers vec irq stack errorCode s
    rw [returned_irq abi irq] at back
    have kept := congrArg CpuState.xmm back
    rw [atCall_xmm irq]
    exact kept
  · intro keeps
    constructor
    · intro vec irq stack errorCode s
      exact ⟨_, keeps.returned abi irq⟩
    · intro final steps s s' computes run
      exact run.agree keeps abi computes (Agree.refl _ s)

/-- A dispatcher that clears all caller-saved general registers and the flags and leaves a
word below its frame. -/
def clobbering (_ : Dispatcher) (s : CpuState) : CpuState :=
  { s with
    gpr := fun r => if r ∈ [Gpr.rbx, .rbp, .r12, .r13, .r14, .r15] then s.gpr r else 0
    rflags := 0
    mem := Function.update s.mem (s.rsp - 8) 0xdead }

theorem systemV_clobbering : SystemV clobbering where
  rsp _ := rfl
  calleeSaved _ _ saved := if_pos saved
  context s := by
    have above : ∀ k : Word, k ≠ -8 → (clobbering .irqDispatch s).mem (s.rsp + k) =
        s.mem (s.rsp + k) := by
      intro k other
      refine Function.update_of_ne (fun same => other ?_) _ _
      bv_omega
    have bottom : (clobbering .irqDispatch s).mem s.rsp = s.mem s.rsp := by
      simpa using above 0 (by decide)
    simp (disch := decide) only [contextAt, above, bottom]

theorem transparent_clobbering : Transparent lowText clobbering :=
  (transparent_iff systemV_clobbering).mpr (keepsXmm_of_xmm lowText fun _ => rfl)

/-- A dispatcher that clears XMM0, as the ABI allows, clears it in the interrupted code. -/
theorem transparent_fails_clearing :
    let handler : Dispatcher → CpuState → CpuState :=
      fun _ s => { s with xmm := Function.update s.xmm 0 0 }
    let s : CpuState := { kernelCode with xmm := fun _ => 5 }
    SystemV handler ∧ IsIrq timerVec ∧
      (returned lowText timerVec s.rsp 0 s handler).xmm 0 = 0 ∧ s.xmm 0 = 5 ∧
      ¬ Transparent lowText handler := by
  intro handler s
  have cleared : (returned lowText timerVec s.rsp 0 s handler).xmm 0 = 0 := by
    decide +kernel
  refine ⟨⟨fun _ => rfl, fun _ _ _ => rfl, fun _ => rfl⟩, .inr (.inl rfl), cleared, rfl, ?_⟩
  intro transparent
  obtain ⟨mem, back⟩ := transparent.registers timerVec (.inr (.inl rfl)) s.rsp 0 s
  have kept : (returned lowText timerVec s.rsp 0 s handler).xmm 0 = 5 := by
    rw [back]
  exact absurd (cleared.symm.trans kept) (by decide)

end RincOs
