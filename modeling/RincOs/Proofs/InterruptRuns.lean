/-
Module: RincOs.Proofs.InterruptRuns
Purpose: Interrupts over whole runs of one processor.  At most one interrupt is
  in service, every `apic::eoi` ends the one being handled, and the kernel panics
  on exceptions and on interrupts without a handler only.
Trusted boundary: none
Main exports:
  highestVector_spec, PoweredOn, Configured, kmain_booted, kmain_returns, Moves,
  NodeStep.moves, ServiceOrder, Stops, Orderly, runs_orderly, eoi_discipline,
  panic_iff_fatal
-/
import RincOs.Kernel.Node
import RincOs.Proofs.ApicDriver
import RincOs.Proofs.InterruptTransparency
import RincOs.Proofs.Ticks

namespace RincOs

/-! ### Priorities -/

/-- The vectors from the highest to the lowest. -/
theorem vectors_descending :
    ((List.range 256).reverse.map (BitVec.ofNat 8)).Pairwise fun v w => w.toNat < v.toNat := by
  rw [List.pairwise_map, List.pairwise_reverse]
  refine List.pairwise_lt_range.imp_of_mem ?_
  intro i j low high below
  rw [List.mem_range] at low high
  rw [BitVec.toNat_ofNat, BitVec.toNat_ofNat]
  omega

theorem mem_vectors (vec : BitVec 8) : vec ∈ (List.range 256).reverse.map (BitVec.ofNat 8) := by
  rw [List.mem_map]
  refine ⟨vec.toNat, ?_, by simp⟩
  rw [List.mem_reverse, List.mem_range]
  exact vec.isLt

theorem highestVector_spec {vectors : BitVec 8 → Bool} {vec : BitVec 8}
    (found : highestVector vectors = some vec) :
    vectors vec = true ∧ ∀ other, vectors other = true → other.toNat ≤ vec.toNat := by
  obtain ⟨member, before, after, split, above⟩ := List.find?_eq_some_iff_append.mp found
  refine ⟨member, fun other inside => ?_⟩
  have order := vectors_descending
  rw [split, List.pairwise_append] at order
  have place := mem_vectors other
  rw [split, List.mem_append, List.mem_cons] at place
  rcases place with early | rfl | late
  · have absent := above other early
    simp [inside] at absent
  · exact Nat.le_refl _
  · exact Nat.le_of_lt ((List.pairwise_cons.mp order.2.1).1 other late)

theorem highestVector_eq_none {vectors : BitVec 8 → Bool} :
    highestVector vectors = none ↔ ∀ vec, vectors vec = false := by
  rw [highestVector, List.find?_eq_none]
  constructor
  · intro absent vec
    simpa using absent vec (mem_vectors vec)
  · intro absent vec _
    simp [absent vec]

/-- The only vector of a set. -/
theorem highestVector_only {vectors : BitVec 8 → Bool} {vec : BitVec 8}
    (only : ∀ other, vectors other = true ↔ other = vec) : highestVector vectors = some vec := by
  cases found : highestVector vectors with
  | none =>
      have absent := highestVector_eq_none.mp found vec
      rw [(only vec).mpr rfl] at absent
      cases absent
  | some other => rw [(only other).mp (highestVector_spec found).1]

/-! ### The next tick

`arm_next_tick` is called by `kmain` and by the handler of every tick.  Whether it arms the
timer depends on two statics that nothing changes after `init_irqs`, and only where it does, the
processor has to have `RDTSCP` and the register of the deadline. -/

namespace TimeState

/-- `arm_next_tick` arms the timer. -/
def arms (s : TimeState) : Bool := s.nextDeadline.isSome

/-- The clock when `time::init` is called. -/
def beforeTick (cpuid : Cpuid) (s : TimeState) : TimeState :=
  if (s.init cpuid).1 then (s.init cpuid).2.registerTimer else (s.init cpuid).2

theorem boot_eq (cpuid : Cpuid) (s : TimeState) :
    s.boot cpuid = (s.beforeTick cpuid).armNextTick := rfl

variable {s s' : TimeState}

theorem arms_congr (registered : s'.registered = s.registered) (tscHz : s'.tscHz = s.tscHz) :
    s'.arms = s.arms := by
  have hz : s'.frequencyHz = s.frequencyHz := by
    rw [frequencyHz, frequencyHz, TimeState.hz, TimeState.hz, registered, tscHz]
  simp only [arms, nextDeadline, hz]
  split_ifs <;> rfl

theorem armNextTick_eq_self (idle : s.arms = false) : s.armNextTick = s := by
  rw [armNextTick_eq_nextDeadline, Option.not_isSome_iff_eq_none.mp (Bool.eq_false_iff.mp idle)]
  rfl

/-- There is no other timer than the one `arm_one_shot` programs. -/
theorem registered_of_arms (arms : s.arms = true) : s.registered = true := by
  by_contra other
  have hz : s.frequencyHz = 0 := if_neg other
  simp [TimeState.arms, nextDeadline, hz] at arms

theorem armOneShot_unregistered (other : s.registered = false) (deadline : Word) :
    s.armOneShot deadline = s := if_neg (by simp [other])

/-- What arming the timer leaves as it is. -/
theorem armOneShot_kept (s : TimeState) (deadline : Word) :
    (s.armOneShot deadline).registered = s.registered ∧
      (s.armOneShot deadline).tscHz = s.tscHz ∧ (s.armOneShot deadline).tsc = s.tsc := by
  rw [TimeState.armOneShot]
  split <;> exact ⟨rfl, rfl, rfl⟩

theorem armNextTick_kept (s : TimeState) :
    s.armNextTick.registered = s.registered ∧ s.armNextTick.tscHz = s.tscHz ∧
      s.armNextTick.tsc = s.tsc := by
  rw [armNextTick_eq_nextDeadline]
  cases s.nextDeadline with
  | none => exact ⟨rfl, rfl, rfl⟩
  | some deadline => exact s.armOneShot_kept deadline

theorem arms_armNextTick (s : TimeState) : s.armNextTick.arms = s.arms :=
  arms_congr s.armNextTick_kept.1 s.armNextTick_kept.2.1

end TimeState

/-! ### What `kmain` sets up -/

/-- The processor as the firmware hands it over: the driver can find the APIC, and no
interrupt is in service. -/
structure PoweredOn (n : Node) : Prop where
  sane : n.apic.Sane
  findable : n.apic.Findable
  isr : ∀ vec, n.apic.lapic.isr vec = false

/-- What stays as `kmain` has set it up.  Where ticks are armed at all, the processor has what
arming them takes. -/
structure Configured (n : Node) : Prop where
  ready : n.apic.Ready
  svr : n.apic.lapic.svr = svrApicEnable ||| 0xff
  lvt : n.apic.lapic.lvtTimer = keptTimerEntry (hasTscDeadline n.apic.cpuid)
  handlerSet : n.handlerSet = true
  clocked : n.time.arms = true →
    hasRdtscp n.apic.cpuid = true ∧ hasTscDeadline n.apic.cpuid = true
  arming : ∀ {ctx deadline}, n.activity = .arming ctx deadline → n.time.arms = true

theorem deadlineMode_kept {l : Lapic} {hasTscDeadline : Bool}
    (lvt : l.lvtTimer = keptTimerEntry hasTscDeadline) : l.deadlineMode = hasTscDeadline := by
  rw [Lapic.deadlineMode, lvt]
  cases hasTscDeadline <;> decide

theorem Configured.timerEvent {n : Node} (configured : Configured n) :
    n.apic.lapic.timerEvent = n.apic.lapic.request timerVec := by
  have entry : ∀ hasTscDeadline, (keptTimerEntry hasTscDeadline &&& lvtMasked == 0) = true ∧
      (keptTimerEntry hasTscDeadline).setWidth 8 = timerVec := by decide
  have unmasked := (entry (hasTscDeadline n.apic.cpuid)).1
  have vector := (entry (hasTscDeadline n.apic.cpuid)).2
  rw [← configured.lvt] at unmasked vector
  rw [Lapic.timerEvent, if_pos unmasked, vector]

/-- The state in which `kmain` has enabled interrupts. -/
structure Booted (n n' : Node) : Prop where
  configured : Configured n'
  activity : n'.activity = .idle
  interruptFlag : n'.interruptFlag = true
  isr : n'.apic.lapic.isr = n.apic.lapic.isr
  irr : n'.apic.lapic.irr = n.apic.lapic.irr
  time : n'.time = n.time.boot n.apic.cpuid

namespace Node

variable {n n' : Node}

/-- `time::init`: what it needs of the processor, and what it does. -/
theorem initTime_eq (n : Node) :
    n.initTime =
      if n.time.arms && !hasRdtscp n.apic.cpuid then .error .invalidOpcode
      else if n.time.arms && !hasTscDeadline n.apic.cpuid then .error .generalProtection
      else .ok
        { n with
          time := if n.apic.lapic.deadlineMode then n.time.armNextTick else n.time } := by
  cases next : n.time.nextDeadline with
  | none =>
      have idle : n.time.arms = false := by rw [TimeState.arms, next]; rfl
      rw [initTime, nextDeadline, next, idle, n.time.armNextTick_eq_self idle, ite_self]
      rfl
  | some deadline =>
      have arms : n.time.arms = true := by rw [TimeState.arms, next]; rfl
      have armed : n.time.armNextTick = n.time.armOneShot deadline := by
        rw [TimeState.armNextTick_eq_nextDeadline, next]
        rfl
      rw [initTime, nextDeadline, next, arms, armed, Option.isSome_some]
      cases hasRdtscp n.apic.cpuid with
      | false => rfl
      | true =>
          change n.arm deadline = _
          rw [arm, TimeState.registered_of_arms arms]
          cases hasTscDeadline n.apic.cpuid with
          | false => rfl
          | true => cases n.apic.lapic.deadlineMode <;> rfl

theorem initTime_ok (done : n.initTime = .ok n') :
    (n.time.arms = true → hasRdtscp n.apic.cpuid = true ∧ hasTscDeadline n.apic.cpuid = true) ∧
      n' = { n with
        time := if n.apic.lapic.deadlineMode then n.time.armNextTick else n.time } := by
  rw [initTime_eq] at done
  split at done
  · cases done
  rename_i noRdtscp
  split at done
  · cases done
  rename_i noDeadline
  refine ⟨fun arms => ?_, (Except.ok.inj done).symm⟩
  simpa [arms] using And.intro noRdtscp noDeadline

/-- The processor when `time::init` is called. -/
def beforeTick (n : Node) (apic : ApicMachine) : Node :=
  { n with apic := apic, handlerSet := true, time := n.time.beforeTick n.apic.cpuid }

theorem startIrqs_eq {apic : ApicMachine} {ok : Bool}
    (done : n.apic.init n.apic.hhdm = some (ok, apic)) :
    n.startIrqs = .ok (ok, n.beforeTick apic) := by
  rw [startIrqs, initIrqs, done]
  rfl

theorem startIrqs_fault (faults : n.apic.init n.apic.hhdm = none) :
    n.startIrqs = .error .generalProtection := by
  rw [startIrqs, initIrqs, faults]
  rfl

theorem kmain_eq {apic : ApicMachine}
    (done : n.apic.init n.apic.hhdm = some (true, apic)) :
    n.kmain = (n.beforeTick apic).initTime.map enableInterrupts := by
  have onward : n.kmain = (n.beforeTick apic).initTime >>= fun n => pure n.enableInterrupts := by
    rw [kmain, startIrqs_eq done]
    rfl
  rw [onward]
  cases (n.beforeTick apic).initTime <;> rfl

theorem kmain_ok {apic : ApicMachine} (done : n.apic.init n.apic.hhdm = some (true, apic))
    (boot : n.kmain = .ok n') :
    ∃ ticked, (n.beforeTick apic).initTime = .ok ticked ∧ n' = ticked.enableInterrupts := by
  rw [kmain_eq done] at boot
  cases time : (n.beforeTick apic).initTime with
  | error kind =>
      rw [time] at boot
      cases boot
  | ok ticked =>
      rw [time] at boot
      exact ⟨ticked, rfl, (Except.ok.inj boot).symm⟩

theorem kmain_fault (faults : n.apic.init n.apic.hhdm = none) :
    n.kmain = .error .generalProtection := by
  rw [kmain, startIrqs_fault faults]
  rfl

end Node

/-- Where `kmain` gets to `enable_interrupts`, it leaves the processor set up. -/
theorem kmain_booted {n start : Node} (on : PoweredOn n) (boot : n.kmain = .ok start) :
    Booted n start := by
  rcases ApicMachine.init_cases on.sane on.findable with
    ⟨base, apic, done, -, cpuid, device, ready⟩ | ⟨faults, -⟩
  · obtain ⟨ticked, time, rfl⟩ := Node.kmain_ok done boot
    obtain ⟨clocked, rfl⟩ := Node.initTime_ok time
    have entry : apic.lapic.lvtTimer = keptTimerEntry (hasTscDeadline apic.cpuid) := by
      rw [device, cpuid]
      rfl
    have mode : (n.beforeTick apic).apic.lapic.deadlineMode = hasTscDeadline apic.cpuid :=
      deadlineMode_kept entry
    -- outside of TSC deadline mode nothing is armed
    have clock : (if (n.beforeTick apic).apic.lapic.deadlineMode then
        (n.beforeTick apic).time.armNextTick else (n.beforeTick apic).time) =
          n.time.boot n.apic.cpuid := by
      rw [mode, TimeState.boot_eq]
      cases arms : (n.beforeTick apic).time.arms with
      | false =>
          rw [TimeState.armNextTick_eq_self arms, ite_self]
          exact (TimeState.armNextTick_eq_self arms).symm
      | true =>
          have deadline : hasTscDeadline apic.cpuid = true := (clocked arms).2
          rw [if_pos deadline]
          rfl
    rw [clock]
    have configured : Configured (Node.enableInterrupts
        { n.beforeTick apic with time := n.time.boot n.apic.cpuid }) := by
      refine ⟨ready, congrArg Lapic.svr device, entry, rfl, fun arms => clocked ?_, ?_⟩
      · rw [← arms]
        exact (TimeState.arms_armNextTick _).symm
      · intro ctx deadline arming
        cases arming
    exact ⟨configured, rfl, rfl, (congrArg Lapic.isr device :), (congrArg Lapic.irr device :),
      rfl⟩
  · rw [Node.kmain_fault faults] at boot
    cases boot

/-- With the features `kmain` uses it gets there. -/
theorem kmain_returns {n : Node} (on : PoweredOn n) (rdtscp : hasRdtscp n.apic.cpuid = true)
    (deadline : hasTscDeadline n.apic.cpuid = true) : ∃ start, n.kmain = .ok start := by
  rcases ApicMachine.init_cases on.sane on.findable with
    ⟨base, apic, done, -, cpuid, -⟩ | ⟨-, missing⟩
  · have has : hasRdtscp (n.beforeTick apic).apic.cpuid = true ∧
        hasTscDeadline (n.beforeTick apic).apic.cpuid = true := by
      change hasRdtscp apic.cpuid = true ∧ hasTscDeadline apic.cpuid = true
      rw [cpuid]
      exact ⟨rdtscp, deadline⟩
    rw [Node.kmain_eq done, Node.initTime_eq, has.1, has.2, Bool.not_true, Bool.and_false,
      if_neg Bool.false_ne_true, if_neg Bool.false_ne_true]
    exact ⟨_, rfl⟩
  · rw [deadline] at missing
    cases missing

/-! ### What a step can do

A step runs the driver, the dispatcher and the handler, each of which can go several ways.
On a configured processor the driver is the device and the handler is the kernel's, and
what is left is listed by `Moves`; the invariants below are cases over this list. -/

/-- The message for an interrupt on a vector without a gate. -/
def missingGateMessage (vec : BitVec 8) : List Char :=
  faultMessage
    { kind := .fault
      faultKind := .generalProtection
      irq := 0
      errorCode := missingGateCode vec
      faultAddr := 0 }

/-- The events after which the kernel panics. -/
def NodeEvent.Fatal : NodeEvent → Prop
  | .fault _ _ | .spurious => True
  | .accept vec => ¬ IsIrq vec
  | _ => False

/-- What the panic says of an interrupt without a handler.  On the vector of an exception it is
reported as this exception, with the error code its stub finds. -/
def ReportsVector (vec : BitVec 8) (message : List Char) : Prop :=
  if vec.toNat < 32 then
    ∃ cr2 ctx, ctx.vector = vec.setWidth 64 ∧ message = faultMessage (exceptionFrame cr2 ctx)
  else message = missingGateMessage vec

/-- What the panic says. -/
def NodeEvent.Reports : NodeEvent → List Char → Prop
  | .fault cr2 ctx, message => message = faultMessage (exceptionFrame cr2 ctx)
  | .spurious, message => message = missingGateMessage 0xff
  | .accept vec, message => ReportsVector vec message
  | _, _ => False

/-- What is left to the handler after `irq_dispatch` has looked at the vector. -/
def Node.afterDispatch (n : Node) (ctx : ExceptionContext) : Activity :=
  if ctx.vector.setWidth 8 = timerVec then
    n.time.nextDeadline.elim (.dispatched ctx) (.arming ctx)
  else .dispatched ctx

/-- The steps of a configured processor. -/
inductive Moves (n : Node) : NodeEvent → Node → Prop where
  | clock (cycles : Nat) (fits : n.time.tsc.toNat + cycles < 2 ^ 64) :
      Moves n (.clock cycles)
        { n with time := { n.time with tsc := n.time.tsc + BitVec.ofNat 64 cycles } }
  | timer (armed : n.time.deadline ≠ 0) (due : n.time.deadline ≤ n.time.tsc) :
      Moves n .timer
        { n.onApic (n.apic.lapic.request timerVec) with
          time := { n.time with deadline := 0 } }
  | request (vec : BitVec 8) (other : vec ≠ timerVec) :
      Moves n (.request vec) (n.onApic (n.apic.lapic.request vec))
  | accept {vec : BitVec 8} (ctx : ExceptionContext) (idle : n.activity = .idle)
      (next : n.apic.lapic.Deliverable vec) (irq : IsIrq vec) (built : ctx.Built vec 0) :
      Moves n (.accept vec)
        { n.onApic (n.apic.lapic.acknowledge vec) with
          interruptFlag := false
          activity := .entered ctx }
  /-- There is no handler for the vector. -/
  | refuse {vec : BitVec 8} {message : List Char} (idle : n.activity = .idle)
      (notIrq : ¬ IsIrq vec) (reports : NodeEvent.Reports (.accept vec) message) :
      Moves n (.accept vec)
        { n.onApic (n.apic.lapic.acknowledge vec) with
          interruptFlag := false
          activity := .panicked message }
  | stop {event : NodeEvent} {message : List Char}
      (running : ∀ message, n.activity ≠ .panicked message)
      (sudden : event = .spurious ∨ ∃ cr2 ctx, event = .fault cr2 ctx)
      (reports : event.Reports message) :
      Moves n event { n with interruptFlag := false, activity := .panicked message }
  | dispatch {ctx : ExceptionContext} (tlb : List CpuAction)
      (entered : n.activity = .entered ctx) :
      Moves n .dispatch { n with tlb := tlb, activity := n.afterDispatch ctx }
  | arm {ctx : ExceptionContext} {deadline : Word} (arming : n.activity = .arming ctx deadline) :
      Moves n .arm
        { n with time := n.time.armOneShot deadline, activity := .dispatched ctx }
  | eoi {ctx : ExceptionContext} (dispatched : n.activity = .dispatched ctx) :
      Moves n (.eoi (highestVector n.apic.lapic.isr))
        { n.onApic n.apic.lapic.retire with activity := .ended ctx }
  | iret {ctx : ExceptionContext} (ended : n.activity = .ended ctx) :
      Moves n .iret { n with interruptFlag := true, activity := .idle }

section

variable {text : StubText} {n n' : Node}

theorem Node.exception_eq (set : n.handlerSet = true) (cr2 : Word) (ctx : ExceptionContext) :
    n.exception cr2 ctx =
      { n with
        interruptFlag := false
        activity := .panicked (faultMessage (exceptionFrame cr2 ctx)) } := by
  rw [Node.exception, exceptionDispatch, dispatch, set]
  rfl

/-- The handler needs no more of the processor than `kmain` did. -/
theorem Configured.nextDeadline (configured : Configured n) :
    n.nextDeadline = .ok n.time.nextDeadline := by
  rw [Node.nextDeadline, if_neg]
  intro missing
  obtain ⟨arms, noRdtscp⟩ := Bool.and_eq_true_iff.mp missing
  simp [(configured.clocked arms).1] at noRdtscp

theorem Configured.dispatchIrq (configured : Configured n) (ctx : ExceptionContext) :
    ∃ tlb, n.dispatchIrq ctx = .ok { n with tlb := tlb, activity := n.afterDispatch ctx } := by
  rw [Node.dispatchIrq, irqDispatch, Node.afterDispatch, configured.handlerSet]
  by_cases shootdown : ctx.vector.setWidth 8 = tlbShootdownVec
  · have notTimer : ctx.vector.setWidth 8 ≠ timerVec := by
      rw [shootdown]
      decide
    rw [if_pos shootdown, if_neg notTimer]
    exact ⟨_, rfl⟩
  · rw [if_neg shootdown]
    refine ⟨n.tlb, ?_⟩
    by_cases timer : ctx.vector.setWidth 8 = timerVec
    · have tick : dispatch true (irqFrame ctx) = .tick := by
        simp [dispatch, irqFrame, onInterrupt, timer]
      rw [if_pos timer, tick]
      change n.nextDeadline.map _ = _
      rw [configured.nextDeadline]
      rfl
    · have ignored : dispatch true (irqFrame ctx) = .ignore := by
        simp [dispatch, irqFrame, onInterrupt, timer]
      rw [if_neg timer, ignored]

/-- The deadline is written where the handler gets to. -/
theorem Configured.arm_iff (configured : Configured n) (deadline : Word) :
    n.arm deadline = .ok n' ↔
      (n.time.registered = true → hasTscDeadline n.apic.cpuid = true) ∧
        { n with time := n.time.armOneShot deadline } = n' := by
  have mode := deadlineMode_kept configured.lvt
  rw [Node.arm, mode]
  cases registered : n.time.registered with
  | false =>
      have same : { n with time := n.time.armOneShot deadline } = n := by
        rw [TimeState.armOneShot_unregistered registered]
      rw [same]
      simp
  | true => cases hasTscDeadline n.apic.cpuid <;> simp

theorem Configured.arms (configured : Configured n) {ctx : ExceptionContext} {deadline : Word}
    (arming : n.activity = .arming ctx deadline) :
    n.arm deadline = .ok { n with time := n.time.armOneShot deadline } :=
  (configured.arm_iff deadline).mpr
    ⟨fun _ => (configured.clocked (configured.arming arming)).2, rfl⟩

theorem isIrq_iff_installed {vec : BitVec 8} :
    IsIrq vec ↔ (text.idt vec).isPresent = true ∧ 32 ≤ vec.toNat := by
  constructor
  · exact fun irq => ⟨irq.installed, irq.high⟩
  · rintro ⟨installed, high⟩
    rcases installed_cases installed with ⟨v, rfl⟩ | ⟨i, rfl⟩ | timer | shootdown
    · have low := v.isLt
      rw [BitVec.toNat_ofNat] at high
      omega
    · have low := i.isLt
      refine Or.inl ⟨high, ?_⟩
      rw [BitVec.toNat_ofNat]
      omega
    · exact Or.inr (Or.inl timer)
    · exact Or.inr (Or.inr shootdown)

/-- The frame of the exception for a vector without a gate. -/
theorem exceptionFrame_missing {ctx : ExceptionContext} {vec : BitVec 8}
    (built : ctx.Built 13 (missingGateCode vec)) (cr2 : Word) :
    faultMessage (exceptionFrame cr2 ctx) = missingGateMessage vec := by
  have number : ctx.vector.setWidth 8 = (13 : BitVec 8) := by
    rw [built.vector]
    decide
  have kind : decodeFaultKind (ctx.vector.setWidth 8) = .generalProtection := by
    rw [number]
    decide
  rw [exceptionFrame, kind, built.errorCode, missingGateMessage]
  rfl

/-- Through a gate the processor comes to `irq_dispatch`, or the kernel panics. -/
theorem Takes.cases {vec : BitVec 8} (taken : Takes text n vec n') (set : n.handlerSet = true) :
    (∃ ctx, IsIrq vec ∧ ctx.Built vec 0 ∧
        n' = { n with interruptFlag := false, activity := .entered ctx }) ∨
      ¬ IsIrq vec ∧ ∃ message, ReportsVector vec message ∧
        n' = { n with interruptFlag := false, activity := .panicked message } := by
  cases taken with
  | gate ctx installed irq built =>
      exact Or.inl ⟨ctx, isIrq_iff_installed.mpr ⟨installed, irq⟩, built, rfl⟩
  | exception cr2 ctx low number =>
      refine Or.inr ⟨fun irq => ?_, _, ?_, n.exception_eq set cr2 ctx⟩
      · have high := irq.high
        omega
      · rw [ReportsVector, if_pos low]
        exact ⟨cr2, ctx, number, rfl⟩
  | missing cr2 ctx absent built =>
      have uninstalled : (text.idt vec).isPresent = false := by
        rw [absent]
        rfl
      refine Or.inr ⟨fun irq => ?_, _, ?_, n.exception_eq set cr2 ctx⟩
      · have installed := @IsIrq.installed text vec irq
        rw [uninstalled] at installed
        cases installed
      · -- the vectors below 32 all have a gate
        have high : ¬ vec.toNat < 32 := by
          intro low
          obtain ⟨v, rfl⟩ := exists_exceptionVec low
          rw [StubText.idt, initIdt_exception, isPresent_gate] at uninstalled
          cases uninstalled
        rw [ReportsVector, if_neg high]
        exact exceptionFrame_missing built cr2

theorem NodeStep.moves {event : NodeEvent} (configured : Configured n)
    (step : NodeStep text n event n') : Moves n event n' := by
  cases step with
  | clock cycles fits => exact .clock cycles fits
  | timer armed due =>
      rw [configured.timerEvent]
      exact .timer armed due
  | request vec other => exact .request vec other
  | accept idle enabled next taken =>
      rcases taken.cases configured.handlerSet with
        ⟨ctx, irq, built, rfl⟩ | ⟨notIrq, message, reports, rfl⟩
      · exact .accept ctx idle next irq built
      · exact .refuse idle notIrq reports
  | spurious idle enabled taken =>
      have vector : n.apic.lapic.svr.setWidth 8 = (0xff : BitVec 8) := by
        rw [configured.svr]
        decide
      rw [vector] at taken
      rcases taken.cases configured.handlerSet with
        ⟨ctx, irq, -⟩ | ⟨-, message, reports, rfl⟩
      · exact absurd irq (by unfold IsIrq; decide)
      · exact .stop (by simp [idle]) (Or.inl rfl) reports
  | @dispatch _ ctx entered done =>
      obtain ⟨tlb, dispatched⟩ := configured.dispatchIrq ctx
      obtain rfl := Except.ok.inj (done.symm.trans dispatched)
      exact .dispatch tlb entered
  | arm arming done =>
      obtain ⟨-, rfl⟩ := (configured.arm_iff _).mp done
      exact .arm arming
  | eoi dispatched done =>
      rw [ApicMachine.eoi_ready configured.ready] at done
      obtain rfl := Option.some.inj done
      exact .eoi dispatched
  | iret ended => exact .iret ended
  | fault cr2 ctx running single =>
      rw [n.exception_eq configured.handlerSet]
      exact .stop running (Or.inr ⟨cr2, ctx, rfl⟩) rfl

end

/-! ### Invariants

A handler runs with interrupts off until it returns, so at most one vector is in service,
and it is the vector of the handler that runs. -/

section

variable {n n' : Node} {event : NodeEvent}

theorem Lapic.retire_eq (l : Lapic) : l.retire = { l with isr := l.retire.isr } := by
  rw [Lapic.retire]
  split <;> rfl

/-- What a move leaves of the device and of the processor. -/
theorem Moves.keeps (moved : Moves n event n') :
    n'.handlerSet = n.handlerSet ∧ ∃ lapic, n'.apic = n.apic.onDevice lapic ∧
      lapic.apicBase = n.apic.lapic.apicBase ∧ lapic.svr = n.apic.lapic.svr ∧
      lapic.lvtTimer = n.apic.lapic.lvtTimer := by
  cases moved with
  | clock | stop | dispatch | arm | iret => exact ⟨rfl, _, rfl, rfl, rfl, rfl⟩
  | timer | accept | refuse | request => exact ⟨rfl, _, rfl, rfl, rfl, rfl⟩
  | eoi =>
      have kept := n.apic.lapic.retire_eq
      exact ⟨rfl, _, rfl, (congrArg Lapic.apicBase kept :), (congrArg Lapic.svr kept :),
        (congrArg Lapic.lvtTimer kept :)⟩

/-- The frequency and the registration of the timer stay, and time does not go back. -/
theorem Moves.time (moved : Moves n event n') :
    n'.time.registered = n.time.registered ∧ n'.time.tscHz = n.time.tscHz ∧
      n.time.tsc.toNat ≤ n'.time.tsc.toNat := by
  cases moved with
  | clock cycles fits =>
      refine ⟨rfl, rfl, ?_⟩
      have sum : (n.time.tsc + BitVec.ofNat 64 cycles).toNat = n.time.tsc.toNat + cycles := by
        rw [BitVec.toNat_add, BitVec.toNat_ofNat]
        omega
      simp [sum]
  | arm arming =>
      have kept := n.time.armOneShot_kept
      exact ⟨(kept _).1, (kept _).2.1, (kept _).2.2 ▸ Nat.le_refl _⟩
  | timer | request | accept | refuse | stop | dispatch | eoi | iret =>
      exact ⟨rfl, rfl, Nat.le_refl _⟩

/-- The handler arms the timer only where `arm_next_tick` does. -/
theorem Moves.arming (moved : Moves n event n') (configured : Configured n)
    {ctx : ExceptionContext} {deadline : Word} (arming : n'.activity = .arming ctx deadline) :
    n.time.arms = true := by
  cases moved with
  | clock | timer | request => exact configured.arming arming
  | accept | refuse | stop | arm | eoi | iret => cases arming
  | @dispatch ctx' =>
      have after : n.afterDispatch ctx' = .arming ctx deadline := arming
      rw [Node.afterDispatch] at after
      rw [TimeState.arms]
      cases next : n.time.nextDeadline with
      | none => split at after <;> simp [next] at after
      | some => rfl

theorem Moves.configured (moved : Moves n event n') (configured : Configured n) :
    Configured n' := by
  obtain ⟨handlerSet, lapic, apic, base, svr, lvt⟩ := moved.keeps
  have arms : n'.time.arms = n.time.arms :=
    TimeState.arms_congr moved.time.1 moved.time.2.1
  refine ⟨?_, ?_, ?_, handlerSet.trans configured.handlerSet, ?_, ?_⟩
  · rw [apic]
    exact configured.ready.onDevice base
  · rw [apic]
    exact svr.trans configured.svr
  · rw [apic]
    exact lvt.trans configured.lvt
  · rw [apic, arms]
    exact configured.clocked
  · intro ctx deadline arming
    rw [arms]
    exact moved.arming configured arming

end

/-- The interrupt that is being handled. -/
def Activity.inService : Activity → Option (BitVec 8)
  | .entered ctx | .arming ctx _ | .dispatched ctx => some (ctx.vector.setWidth 8)
  | .idle | .ended _ | .panicked _ => none

/-- The interrupts taken over so far, the latest first. -/
def acceptedIn (events : List NodeEvent) : List (BitVec 8) :=
  events.filterMap fun
    | .accept vec => some vec
    | _ => none

/-- What the writes to the EOI register have ended so far, the latest first. -/
def retiredIn (events : List NodeEvent) : List (Option (BitVec 8)) :=
  events.filterMap fun
    | .eoi retired => some retired
    | _ => none

/-- The interrupts are served one after the other, and at most one is not ended yet. -/
structure ServiceOrder (events : List NodeEvent) (n : Node) (pending : Option (BitVec 8)) :
    Prop where
  isr : ∀ vec, n.apic.lapic.isr vec = true ↔ pending = some vec
  history : (acceptedIn events).map some = pending.toList.map some ++ retiredIn events
  running : (∀ message, n.activity ≠ .panicked message) →
    n.activity.inService = pending ∧ (n.interruptFlag = true ↔ n.activity = .idle)

section

variable {n n' : Node} {event : NodeEvent} {events : List NodeEvent}
  {pending : Option (BitVec 8)}

theorem ServiceOrder.highestVector_isr (serves : ServiceOrder events n pending) :
    highestVector n.apic.lapic.isr = pending := by
  cases pending with
  | none =>
      apply highestVector_eq_none.mpr
      intro vec
      simpa using serves.isr vec
  | some vec =>
      apply highestVector_only
      intro other
      rw [serves.isr, Option.some.injEq, eq_comm]

theorem ServiceOrder.idle (serves : ServiceOrder events n pending) (idle : n.activity = .idle) :
    pending = none := by
  have running := serves.running (by simp [idle])
  rw [idle] at running
  exact running.1.symm

theorem Node.afterDispatch_inService (n : Node) (ctx : ExceptionContext) :
    (n.afterDispatch ctx).inService = some (ctx.vector.setWidth 8) ∧
      n.afterDispatch ctx ≠ .idle := by
  rw [Node.afterDispatch]
  cases n.time.nextDeadline <;> split_ifs <;> simp [Activity.inService]

/-- The processor takes an interrupt over while none is in service. -/
theorem ServiceOrder.acknowledge {vec : BitVec 8} (serves : ServiceOrder events n none)
    {activity : Activity}
    (running : (∀ message, activity ≠ .panicked message) →
      activity.inService = some vec ∧ activity ≠ .idle) :
    ServiceOrder (.accept vec :: events)
      { n.onApic (n.apic.lapic.acknowledge vec) with
        interruptFlag := false
        activity := activity }
      (some vec) where
  isr other := by
    by_cases same : other = vec
    · simp [Node.onApic, Lapic.acknowledge, same]
    · have empty := serves.isr other
      simp only [reduceCtorEq, iff_false] at empty
      simp [Node.onApic, Lapic.acknowledge, Function.update_of_ne same, empty, Ne.symm same]
  history := by
    have history := serves.history
    simp only [Option.toList_none, List.map_nil, List.nil_append] at history
    simpa [acceptedIn, retiredIn] using history
  running alive := by simpa using running alive

/-- The interrupt that is being handled is ended. -/
theorem ServiceOrder.retire {vec : BitVec 8} (serves : ServiceOrder events n (some vec))
    (ctx : ExceptionContext) (dispatched : n.activity = .dispatched ctx) :
    ServiceOrder (.eoi (highestVector n.apic.lapic.isr) :: events)
      { n.onApic n.apic.lapic.retire with activity := .ended ctx } none where
  isr other := by
    have only := serves.isr other
    have found := serves.highestVector_isr
    by_cases same : other = vec
    · simp [Node.onApic, Lapic.retire, found, same]
    · simp [Node.onApic, Lapic.retire, found, Function.update_of_ne same, only, Ne.symm same]
  history := by
    rw [serves.highestVector_isr]
    simpa [acceptedIn, retiredIn] using serves.history
  running _ := by
    have flag := (serves.running (by simp [dispatched])).2
    simp only [dispatched, reduceCtorEq, iff_false] at flag
    simp [Activity.inService, Node.onApic, flag]

/-- An event that neither takes over nor ends an interrupt. -/
theorem ServiceOrder.quiet (serves : ServiceOrder events n pending)
    (accepted : acceptedIn (event :: events) = acceptedIn events)
    (retired : retiredIn (event :: events) = retiredIn events)
    (isr : n'.apic.lapic.isr = n.apic.lapic.isr)
    (running : (∀ message, n'.activity ≠ .panicked message) →
      n'.activity.inService = pending ∧ (n'.interruptFlag = true ↔ n'.activity = .idle)) :
    ServiceOrder (event :: events) n' pending where
  isr := isr ▸ serves.isr
  history := by rw [accepted, retired, serves.history]
  running := running

theorem Moves.serves (moved : Moves n event n') (serves : ServiceOrder events n pending) :
    ∃ pending, ServiceOrder (event :: events) n' pending := by
  have running := serves.running
  cases moved with
  | clock | timer | request => exact ⟨pending, serves.quiet rfl rfl rfl running⟩
  | accept ctx idle next irq built =>
      obtain rfl := serves.idle idle
      refine ⟨_, serves.acknowledge fun _ => ?_⟩
      simp [Activity.inService, built.vector]
  | refuse idle =>
      obtain rfl := serves.idle idle
      exact ⟨_, serves.acknowledge fun alive => absurd rfl (alive _)⟩
  | stop alive sudden =>
      refine ⟨pending, serves.quiet ?_ ?_ rfl fun alive => absurd rfl (alive _)⟩
      all_goals rcases sudden with rfl | ⟨cr2, ctx, rfl⟩ <;> rfl
  | dispatch tlb entered =>
      have before := running (by simp [entered])
      have after := n.afterDispatch_inService
      refine ⟨pending, serves.quiet rfl rfl rfl fun _ => ?_⟩
      simp_all [Activity.inService]
  | arm arming =>
      have before := running (by simp [arming])
      refine ⟨pending, serves.quiet rfl rfl rfl fun _ => ?_⟩
      simp_all [Activity.inService]
  | eoi dispatched =>
      have before := (running (by simp [dispatched])).1
      rw [dispatched] at before
      obtain rfl := before
      exact ⟨none, serves.retire _ dispatched⟩
  | iret ended =>
      have before := (running (by simp [ended])).1
      rw [ended] at before
      obtain rfl := before
      exact ⟨none, serves.quiet rfl rfl rfl fun _ => by simp [Activity.inService]⟩

/-- The events that are not of the kernel's making. -/
def NodeEvent.Outside : NodeEvent → Prop
  | .clock _ | .timer | .request _ => True
  | _ => False

/-- The panic has one cause, and after it the processor handles nothing any more. -/
structure Stops (events : List NodeEvent) (n : Node) : Prop where
  cause : ∀ message, n.activity = .panicked message →
    ∃ after event before, events = after ++ event :: before ∧
      event.Fatal ∧ event.Reports message ∧
      (∀ later ∈ after, later.Outside) ∧ ∀ earlier ∈ before, ¬ earlier.Fatal
  none : (∀ message, n.activity ≠ .panicked message) → ∀ event ∈ events, ¬ event.Fatal

/-- The kernel goes on. -/
theorem Stops.alive (stops : Stops events n) (wasAlive : ∀ message, n.activity ≠ .panicked message)
    (harmless : ¬ event.Fatal) (alive : ∀ message, n'.activity ≠ .panicked message) :
    Stops (event :: events) n' where
  cause message panicked := absurd panicked (alive message)
  none _ := List.forall_mem_cons.mpr ⟨harmless, stops.none wasAlive⟩

/-- The kernel panics now. -/
theorem Stops.now {message : List Char} (stops : Stops events n)
    (wasAlive : ∀ message, n.activity ≠ .panicked message) (fatal : event.Fatal)
    (reports : event.Reports message) (panicked : n'.activity = .panicked message) :
    Stops (event :: events) n' where
  cause message' panicked' := by
    obtain rfl : message = message' := by simpa [panicked] using panicked'
    exact ⟨[], event, events, rfl, fatal, reports, by simp, stops.none wasAlive⟩
  none alive := absurd panicked (alive message)

/-- Something happens outside of the kernel. -/
theorem Stops.outside (stops : Stops events n) (outside : event.Outside)
    (activity : n'.activity = n.activity) : Stops (event :: events) n' where
  cause message panicked := by
    obtain ⟨after, cause, before, split, fatal, reports, later, earlier⟩ :=
      stops.cause message (activity ▸ panicked)
    refine ⟨event :: after, cause, before, ?_, fatal, reports, ?_, earlier⟩
    · rw [split, List.cons_append]
    · exact List.forall_mem_cons.mpr ⟨outside, later⟩
  none alive := by
    have harmless : ¬ event.Fatal := by
      cases event <;> simp_all [NodeEvent.Outside, NodeEvent.Fatal]
    rw [activity] at alive
    exact List.forall_mem_cons.mpr ⟨harmless, stops.none alive⟩

theorem Moves.stops (moved : Moves n event n') (stops : Stops events n) :
    Stops (event :: events) n' := by
  cases moved with
  | clock | timer | request => exact stops.outside trivial rfl
  | accept ctx idle next irq built =>
      exact stops.alive (by simp [idle]) (not_not_intro irq) (by simp)
  | refuse idle notIrq reports => exact stops.now (by simp [idle]) notIrq reports rfl
  | stop alive sudden reports =>
      refine stops.now alive ?_ reports rfl
      rcases sudden with rfl | ⟨cr2, ctx, rfl⟩ <;> trivial
  | @dispatch ctx tlb entered =>
      have after := (n.afterDispatch_inService ctx).1
      refine stops.alive (by simp [entered]) id fun message panicked => ?_
      simp only at panicked
      rw [panicked] at after
      cases after
  | arm arming => exact stops.alive (by simp [arming]) id (by simp)
  | eoi dispatched => exact stops.alive (by simp [dispatched]) id (by simp)
  | iret ended => exact stops.alive (by simp [ended]) id (by simp)

end

/-! ### Whole runs -/

section

variable {text : StubText} {n start n' : Node} {events : List NodeEvent}

/-- What holds at any time after `kmain` has enabled interrupts. -/
structure Orderly (events : List NodeEvent) (n : Node) : Prop where
  configured : Configured n
  serves : ∃ pending, ServiceOrder events n pending
  stops : Stops events n

theorem Booted.orderly (on : PoweredOn n) (booted : Booted n start) : Orderly [] start where
  configured := booted.configured
  serves := by
    refine ⟨none, ?_, rfl, fun _ => ?_⟩
    · intro vec
      rw [booted.isr]
      simp [on.isr vec]
    · rw [booted.activity, booted.interruptFlag]
      simp [Activity.inService]
  stops := ⟨fun message panicked => by simp [booted.activity] at panicked, by simp⟩

theorem NodeStep.orderly {event : NodeEvent} (orderly : Orderly events n)
    (step : NodeStep text n event n') : Orderly (event :: events) n' := by
  have moved := step.moves orderly.configured
  obtain ⟨pending, serves⟩ := orderly.serves
  exact ⟨moved.configured orderly.configured, moved.serves serves, moved.stops orderly.stops⟩

theorem runs_orderly (on : PoweredOn n) (boot : n.kmain = .ok start)
    (run : NodeRun text start events n') : Orderly events n' := by
  exact run.invariant ((kmain_booted on boot).orderly on) fun orderly next =>
    next.orderly orderly

/-- However the clock, the APIC, other processors and faults interleave with the handlers:
the accepted interrupts are those ended by `apic::eoi`, in order, and at most one more.  That
one is the interrupt in service, and while the kernel runs it is the one being handled. -/
theorem eoi_discipline (on : PoweredOn n) (boot : n.kmain = .ok start)
    (run : NodeRun text start events n') : ∃ pending, ServiceOrder events n' pending :=
  (runs_orderly on boot run).serves

/-- The kernel has panicked exactly if an exception, the spurious vector or a vector without
a handler came up, and the message tells which. -/
theorem panic_iff_fatal (on : PoweredOn n) (boot : n.kmain = .ok start)
    (run : NodeRun text start events n') :
    ((∃ message, n'.activity = .panicked message) ↔ ∃ event ∈ events, event.Fatal) ∧
      Stops events n' := by
  have stops := (runs_orderly on boot run).stops
  refine ⟨⟨?_, ?_⟩, stops⟩
  · rintro ⟨message, panicked⟩
    obtain ⟨after, event, before, split, fatal, -⟩ := stops.cause message panicked
    exact ⟨event, by simp [split], fatal⟩
  · rintro ⟨event, member, fatal⟩
    by_contra alive
    exact stops.none (not_exists.mp alive) event member fatal

end

/-! ### A processor with its firmware's settings -/

/-- A 3 GHz processor with the TSC deadline mode and without x2APIC. -/
def firstNode : Node where
  apic := { oldProcessor with cpuid := crystalCpuid }
  time := { tscHz := 0, registered := false, tsc := 5000, deadline := 0 }
  handlerSet := false
  interruptFlag := false
  cr3 := 0
  tlb := []
  activity := .idle

theorem firstNode_poweredOn : PoweredOn firstNode where
  sane := fun set => absurd set (by decide)
  findable := by
    unfold ApicMachine.Findable
    decide
  isr := fun _ => rfl

theorem firstNode_boots : ∃ start, firstNode.kmain = .ok start ∧ Booted firstNode start := by
  obtain ⟨start, boot⟩ := kmain_returns firstNode_poweredOn (by decide) (by decide)
  exact ⟨start, boot, kmain_booted firstNode_poweredOn boot⟩

/-- A context the stub of a vector builds. -/
def contextFor (vec : BitVec 8) : ExceptionContext :=
  { r15 := 0, r14 := 0, r13 := 0, r12 := 0, r11 := 0, r10 := 0, r9 := 0, r8 := 0, rdi := 0,
    rsi := 0, rbp := 0, rdx := 0, rcx := 0, rbx := 0, rax := 0, vector := vec.setWidth 64,
    errorCode := 0, rip := 0, cs := 0, rflags := 0, rsp := 0, ss := 0 }

/-- An interrupt of a device comes in and is being handled. -/
theorem eoi_discipline_firstNode :
    ∃ start n', firstNode.kmain = .ok start ∧
      NodeRun lowText start [.accept 33, .request 33] n' ∧
      ∃ pending, ServiceOrder [.accept 33, .request 33] n' pending := by
  obtain ⟨start, boot, booted⟩ := firstNode_boots
  have requested : ∀ vec, (start.apic.lapic.request 33).irr vec = true ↔ vec = 33 := by
    intro vec
    rw [Lapic.request, booted.irr]
    by_cases same : vec = 33
    · simp [same]
    · refine iff_of_false ?_ same
      change ¬ Function.update firstNode.apic.lapic.irr 33 true vec = true
      rw [Function.update_of_ne same]
      exact Bool.false_ne_true
  have deliverable : (start.apic.lapic.request 33).Deliverable 33 := by
    refine ⟨highestVector_only requested, by decide, fun other service => ?_⟩
    have inService := (highestVector_spec service).1
    rw [Lapic.request, booted.isr] at inService
    cases inService
  have irq : IsIrq 33 := by
    unfold IsIrq
    decide
  have run : NodeRun lowText start [.accept 33, .request 33] _ :=
    .step (.step .start (.request 33 (by decide)))
      (.accept booted.activity booted.interruptFlag deliverable
        (.gate (contextFor 33) irq.installed irq.high ⟨rfl, rfl⟩))
  exact ⟨start, _, boot, run, eoi_discipline firstNode_poweredOn boot run⟩

/-- A page fault at the end of `kmain`. -/
theorem panic_iff_fatal_firstNode :
    ∃ start n', firstNode.kmain = .ok start ∧
      NodeRun lowText start [.fault 0x10 (contextFor 14)] n' ∧
      ((∃ message, n'.activity = .panicked message) ↔
        ∃ event ∈ [NodeEvent.fault 0x10 (contextFor 14)], event.Fatal) ∧
      Stops [.fault 0x10 (contextFor 14)] n' := by
  obtain ⟨start, boot, booted⟩ := firstNode_boots
  have run : NodeRun lowText start [.fault 0x10 (contextFor 14)] _ :=
    .step .start (.fault 0x10 (contextFor 14) (by simp [booted.activity]) (by decide))
  exact ⟨start, _, boot, run, panic_iff_fatal firstNode_poweredOn boot run⟩

end RincOs
