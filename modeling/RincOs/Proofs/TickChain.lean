/-
Module: RincOs.Proofs.TickChain
Purpose: The chain of timer ticks.  Each tick is armed by the handler of the one
  before, so a tick that is lost ends the chain and one that is armed twice
  speeds it up; neither happens while the kernel runs.
Trusted boundary: none
Main exports:
  TimeState.Ticking, Node.outstandingTicks, TickPlace, tick_chain, tick_follows
-/
import RincOs.Proofs.InterruptProgress

namespace RincOs

/-! ### The clock -/

namespace TimeState

/-- The distance `arm_next_tick` puts between now and the next tick. -/
def period (s : TimeState) : Word := saturatedTicks s.tscHz tickNs

/-- `arm_next_tick` arms the timer. -/
def Ticking (s : TimeState) : Prop := s.registered = true ∧ s.tscHz ≠ 0 ∧ s.period ≠ 0

variable {s : TimeState}

theorem Ticking.frequencyHz (ticking : s.Ticking) : s.frequencyHz = s.tscHz := by
  rw [TimeState.frequencyHz, if_pos ticking.1, hz_eq ticking.2.1]
  rfl

theorem Ticking.nextDeadline (ticking : s.Ticking) : s.nextDeadline = some (s.tsc + s.period) := by
  have now : s.nowTicks = s.tsc := if_pos ticking.1
  have some : ¬ saturatingMul tickNs s.tscHz / 1000000000 = 0 := ticking.2.2
  simp only [TimeState.nextDeadline, ticking.frequencyHz, if_neg ticking.2.1, if_neg some, now]
  rfl

theorem Ticking.armOneShot (ticking : s.Ticking) (deadline : Word) :
    s.armOneShot deadline = { s with deadline := deadline } := if_pos ticking.1

theorem Ticking.of_kept {s' : TimeState} (ticking : s.Ticking)
    (registered : s'.registered = s.registered) (tscHz : s'.tscHz = s.tscHz) :
    s'.Ticking ∧ s'.period = s.period := by
  have period : s'.period = s.period := by rw [TimeState.period, tscHz, TimeState.period]
  rw [Ticking, registered, tscHz, period]
  exact ⟨ticking, rfl⟩

/-- `kmain` has armed the first tick. -/
theorem boot_deadline {cpuid : Cpuid} (ticking : (s.boot cpuid).Ticking) :
    (s.boot cpuid).deadline = (s.boot cpuid).tsc + (s.boot cpuid).period := by
  have booted : ∃ before : TimeState, s.boot cpuid = before.armNextTick := ⟨_, rfl⟩
  obtain ⟨before, booted⟩ := booted
  rw [booted] at ticking ⊢
  have kept := before.armNextTick_kept
  have earlier := ticking.of_kept kept.1.symm kept.2.1.symm
  rw [kept.2.2, ← earlier.2, armNextTick_eq_nextDeadline, earlier.1.nextDeadline,
    Option.elim_some, earlier.1.armOneShot]

end TimeState

/-! ### Where the tick is -/

/-- A handler that has still to arm the timer. -/
def Activity.Owes : Activity → Prop
  | .entered ctx => ctx.vector.setWidth 8 = timerVec
  | .arming _ _ => True
  | _ => False

instance : (activity : Activity) → Decidable activity.Owes
  | .entered ctx => inferInstanceAs (Decidable (ctx.vector.setWidth 8 = timerVec))
  | .arming _ _ => inferInstanceAs (Decidable True)
  | .idle | .dispatched _ | .ended _ | .panicked _ => inferInstanceAs (Decidable False)

/-- The ticks that are armed, requested or being handled up to the point where the next one
is armed. -/
def Node.outstandingTicks (n : Node) : Nat :=
  (if n.time.deadline = 0 then 0 else 1) + (if n.apic.lapic.irr timerVec then 1 else 0) +
    if n.activity.Owes then 1 else 0

/-- The one place where the next tick is, when `count` ticks have been taken over since the
time `origin`. -/
inductive TickPlace (origin period count : Nat) (n : Node) : Prop where
  | armed (free : ¬ n.activity.Owes) (deadline : n.time.deadline ≠ 0)
      (irr : n.apic.lapic.irr timerVec = false)
      (early : origin + (count + 1) * period ≤ n.time.deadline.toNat)
      (late : n.time.deadline.toNat ≤ n.time.tsc.toNat + period)
  | requested (free : ¬ n.activity.Owes) (deadline : n.time.deadline = 0)
      (irr : n.apic.lapic.irr timerVec = true)
      (early : origin + (count + 1) * period ≤ n.time.tsc.toNat)
  | entered {ctx : ExceptionContext} (activity : n.activity = .entered ctx)
      (timer : ctx.vector.setWidth 8 = timerVec) (deadline : n.time.deadline = 0)
      (irr : n.apic.lapic.irr timerVec = false)
      (early : origin + count * period ≤ n.time.tsc.toNat)
  | arming {ctx : ExceptionContext} {next : Word} (activity : n.activity = .arming ctx next)
      (nonzero : next ≠ 0) (deadline : n.time.deadline = 0)
      (irr : n.apic.lapic.irr timerVec = false)
      (early : origin + (count + 1) * period ≤ next.toNat)
      (late : next.toNat ≤ n.time.tsc.toNat + period)

section

variable {origin period count : Nat} {n n' : Node}

theorem TickPlace.outstandingTicks (place : TickPlace origin period count n) :
    n.outstandingTicks = 1 := by
  rw [Node.outstandingTicks]
  cases place with
  | armed free deadline irr => rw [if_neg deadline, if_neg (by simp [irr]), if_neg free]
  | requested free deadline irr => simp [free, deadline, irr]
  | entered activity timer deadline irr => simp [activity, Activity.Owes, timer, deadline, irr]
  | arming activity nonzero deadline irr => simp [activity, Activity.Owes, deadline, irr]

/-- No more ticks than periods have passed. -/
theorem TickPlace.rate (place : TickPlace origin period count n) :
    origin + count * period ≤ n.time.tsc.toNat := by
  have next : (count + 1) * period = count * period + period := Nat.succ_mul count period
  cases place with
  | armed _ _ _ early late => omega
  | requested _ _ _ early => omega
  | entered _ _ _ _ early => exact early
  | arming _ _ _ _ early late => omega

/-- A step that does not touch the timer and leaves what is owed as it is. -/
theorem TickPlace.kept (place : TickPlace origin period count n)
    (deadline : n'.time.deadline = n.time.deadline)
    (irr : n'.apic.lapic.irr timerVec = n.apic.lapic.irr timerVec)
    (tsc : n.time.tsc.toNat ≤ n'.time.tsc.toNat)
    (owes : n'.activity = n.activity ∨ ¬ n.activity.Owes ∧ ¬ n'.activity.Owes) :
    TickPlace origin period count n' := by
  have free : ¬ n.activity.Owes → ¬ n'.activity.Owes := by
    rcases owes with same | ⟨-, free⟩
    · exact same ▸ id
    · exact fun _ => free
  cases place with
  | armed wasFree armed noRequest early late =>
      rw [← deadline] at armed early late
      exact .armed (free wasFree) armed (irr.trans noRequest) early (by omega)
  | requested wasFree zero request early =>
      exact .requested (free wasFree) (deadline.trans zero) (irr.trans request) (by omega)
  | entered activity timer zero noRequest early =>
      rcases owes with same | ⟨wasFree, -⟩
      · exact .entered (same.trans activity) timer (deadline.trans zero) (irr.trans noRequest)
          (by omega)
      · rw [activity] at wasFree
        exact absurd timer wasFree
  | arming activity nonzero zero noRequest early late =>
      rcases owes with same | ⟨wasFree, -⟩
      · exact .arming (same.trans activity) nonzero (deadline.trans zero) (irr.trans noRequest)
          early (by omega)
      · rw [activity] at wasFree
        exact absurd trivial wasFree

/-- While the handler owes nothing, the next tick is armed or requested. -/
theorem TickPlace.requested_or_armed (place : TickPlace origin period count n)
    (free : ¬ n.activity.Owes) :
    n.apic.lapic.irr timerVec = true ∧ n.time.deadline = 0 ∧
        origin + (count + 1) * period ≤ n.time.tsc.toNat ∨
      n.apic.lapic.irr timerVec = false ∧ n.time.deadline ≠ 0 ∧
        n.time.deadline.toNat ≤ n.time.tsc.toNat + period := by
  cases place with
  | armed _ deadline irr _ late => exact Or.inr ⟨irr, deadline, late⟩
  | requested _ deadline irr early => exact Or.inl ⟨irr, deadline, early⟩
  | entered activity timer =>
      rw [activity] at free
      exact absurd timer free
  | arming activity =>
      rw [activity] at free
      exact absurd trivial free

end

/-! ### Steps -/

/-- The ticks taken over so far. -/
def ticksIn (events : List NodeEvent) : Nat := (acceptedIn events).count timerVec

section

variable {origin period : Nat} {n n' : Node} {event : NodeEvent} {events : List NodeEvent}

/-- A panic is final. -/
theorem Moves.alive (moved : Moves n event n')
    (alive : ∀ message, n'.activity ≠ .panicked message) :
    ∀ message, n.activity ≠ .panicked message := by
  intro message panicked
  cases moved with
  | clock | timer | request => exact alive message panicked
  | accept _ idle | refuse idle => simp [panicked] at idle
  | stop running => exact running message panicked
  | dispatch _ entered => simp [panicked] at entered
  | arm arming => simp [panicked] at arming
  | eoi dispatched => simp [panicked] at dispatched
  | iret ended => simp [panicked] at ended

/-- The handler of a tick computes when the next one is due. -/
theorem TickPlace.dispatch {ctx : ExceptionContext} {count : Nat} {tlb : List CpuAction}
    (place : TickPlace origin period count n) (ticking : n.time.Ticking)
    (isPeriod : n.time.period.toNat = period) (fits : n.time.tsc.toNat + period < 2 ^ 64)
    (entered : n.activity = .entered ctx) :
    TickPlace origin period count { n with tlb := tlb, activity := n.afterDispatch ctx } := by
  rw [Node.afterDispatch]
  by_cases timer : ctx.vector.setWidth 8 = timerVec
  · rw [if_pos timer, ticking.nextDeadline, Option.elim_some]
    have sum : (n.time.tsc + n.time.period).toNat = n.time.tsc.toNat + period := by
      rw [BitVec.toNat_add, isPeriod]
      omega
    have next : (count + 1) * period = count * period + period := Nat.succ_mul count period
    have rate := place.rate
    cases place with
    | armed free | requested free =>
        rw [entered] at free
        exact absurd timer free
    | entered activity _ zero noRequest early =>
        refine .arming rfl ?_ zero noRequest (by omega) (Nat.le_of_eq sum)
        intro wrapped
        have positive : n.time.period.toNat ≠ 0 := fun none =>
          ticking.2.2 (BitVec.eq_of_toNat_eq none)
        rw [wrapped] at sum
        change 0 = _ at sum
        omega
    | arming activity =>
        rw [entered] at activity
        cases activity
  · rw [if_neg timer]
    refine place.kept rfl rfl (Nat.le_refl _) (Or.inr ⟨?_, id⟩)
    rw [entered]
    exact timer

/-- An interrupt is taken over; if it is the tick, it is counted. -/
theorem TickPlace.accept {vec : BitVec 8} {ctx : ExceptionContext}
    (place : TickPlace origin period (ticksIn events) n) (idle : n.activity = .idle)
    (next : n.apic.lapic.Deliverable vec) (built : ctx.Built vec 0) :
    TickPlace origin period (ticksIn (.accept vec :: events))
      { n.onApic (n.apic.lapic.acknowledge vec) with
        interruptFlag := false
        activity := .entered ctx } := by
  have number : ctx.vector.setWidth 8 = vec := by simp [built.vector]
  have free : ¬ n.activity.Owes := by
    rw [idle]
    exact id
  by_cases timer : vec = timerVec
  · subst timer
    have counted : ticksIn (.accept timerVec :: events) = ticksIn events + 1 := by
      simp [ticksIn, acceptedIn]
    rw [counted]
    rcases place.requested_or_armed free with ⟨-, zero, early⟩ | ⟨noRequest, -⟩
    · exact .entered rfl number zero (by simp [Node.onApic, Lapic.acknowledge]) early
    · rw [(highestVector_spec next.1).1] at noRequest
      cases noRequest
  · have counted : ticksIn (.accept vec :: events) = ticksIn events := by
      simp [ticksIn, acceptedIn, timer]
    rw [counted]
    refine place.kept rfl ?_ (Nat.le_refl _) (Or.inr ⟨free, ?_⟩)
    · exact Function.update_of_ne (Ne.symm timer) _ _
    · exact number ▸ timer

/-- The deadline is written. -/
theorem TickPlace.arm {ctx : ExceptionContext} {deadline : Word} {count : Nat}
    (place : TickPlace origin period count n) (ticking : n.time.Ticking)
    (arming : n.activity = .arming ctx deadline) :
    TickPlace origin period count
      { n with time := n.time.armOneShot deadline, activity := .dispatched ctx } := by
  rw [ticking.armOneShot]
  cases place with
  | armed free | requested free =>
      rw [arming] at free
      exact absurd trivial free
  | entered activity =>
      rw [arming] at activity
      cases activity
  | arming activity nonzero _ noRequest early late =>
      rw [arming] at activity
      cases activity
      exact .armed id nonzero noRequest early late

theorem Moves.tickPlace (moved : Moves n event n') (ticking : n.time.Ticking)
    (isPeriod : n.time.period.toNat = period) (fits : n'.time.tsc.toNat + period < 2 ^ 64)
    (alive : ∀ message, n'.activity ≠ .panicked message)
    (place : TickPlace origin period (ticksIn events) n) :
    TickPlace origin period (ticksIn (event :: events)) n' := by
  have time := moved.time
  cases moved with
  | clock => exact place.kept rfl rfl time.2.2 (Or.inl rfl)
  | timer armed due =>
      cases place with
      | armed free _ _ early =>
          refine .requested free rfl ?_ (early.trans due)
          simp [Node.onApic, Lapic.request]
      | requested _ zero | entered _ _ zero | arming _ _ zero => exact absurd zero armed
  | request vec other =>
      refine place.kept rfl ?_ (Nat.le_refl _) (Or.inl rfl)
      exact Function.update_of_ne (Ne.symm other) _ _
  | accept ctx idle next irq built => exact place.accept idle next built
  | refuse | stop => exact absurd rfl (alive _)
  | dispatch tlb entered => exact place.dispatch ticking isPeriod fits entered
  | arm arming => exact place.arm ticking arming
  | eoi dispatched =>
      refine place.kept rfl ?_ (Nat.le_refl _) (Or.inr ⟨?_, id⟩)
      · exact congrFun (congrArg Lapic.irr n.apic.lapic.retire_eq) timerVec
      · rw [dispatched]
        exact id
  | iret ended =>
      refine place.kept rfl rfl (Nat.le_refl _) (Or.inr ⟨?_, id⟩)
      rw [ended]
      exact id

end

/-! ### Whole runs -/

/-- What is known of the ticks after a run from `start`. -/
structure Chained (start : Node) (events : List NodeEvent) (n : Node) : Prop where
  orderly : Orderly events n
  ticking : n.time.Ticking
  period : n.time.period = start.time.period
  place : (∀ message, n.activity ≠ .panicked message) →
    n.time.tsc.toNat + start.time.period.toNat < 2 ^ 64 →
    TickPlace start.time.tsc.toNat start.time.period.toNat (ticksIn events) n

section

variable {text : StubText} {n start n' : Node} {events : List NodeEvent}

theorem NodeStep.chained {event : NodeEvent} (chained : Chained start events n)
    (step : NodeStep text n event n') : Chained start (event :: events) n' := by
  have moved := step.moves chained.orderly.configured
  have time := moved.time
  have kept := chained.ticking.of_kept time.1 time.2.1
  refine ⟨step.orderly chained.orderly, kept.1, kept.2.trans chained.period, ?_⟩
  intro alive fits
  refine moved.tickPlace chained.ticking (congrArg BitVec.toNat chained.period) fits alive ?_
  exact chained.place (moved.alive alive) (by omega)

theorem NodeRun.chained {before : List NodeEvent} (run : NodeRun text n events n')
    (chained : Chained start before n) : Chained start (events ++ before) n' := by
  induction run with
  | start => exact chained
  | step _ next inductionHypothesis => exact next.chained inductionHypothesis

/-- After `kmain` the first tick is armed. -/
theorem Booted.chained (on : PoweredOn n) (quiet : n.apic.lapic.irr timerVec = false)
    (booted : Booted n start) (ticking : start.time.Ticking) : Chained start [] start := by
  refine ⟨booted.orderly on, ticking, rfl, fun _ fits => ?_⟩
  have deadline : start.time.deadline = start.time.tsc + start.time.period := by
    rw [booted.time] at ticking ⊢
    exact TimeState.boot_deadline ticking
  have sum : start.time.deadline.toNat = start.time.tsc.toNat + start.time.period.toNat := by
    rw [deadline, BitVec.toNat_add]
    omega
  have positive : start.time.period.toNat ≠ 0 := fun none =>
    ticking.2.2 (BitVec.eq_of_toNat_eq none)
  refine .armed ?_ ?_ ?_ ?_ (Nat.le_of_eq sum)
  · rw [booted.activity]
    exact id
  · intro zero
    rw [zero] at sum
    change 0 = _ at sum
    omega
  · rw [booted.irr]
    exact quiet
  · simp [ticksIn, acceptedIn, sum]

theorem runs_chained (on : PoweredOn n) (quiet : n.apic.lapic.irr timerVec = false)
    (boot : n.kmain = .ok start) (ticking : start.time.Ticking)
    (run : NodeRun text start events n') : Chained start events n' := by
  have chained := run.chained ((kmain_booted on boot).chained on quiet ticking)
  rwa [List.append_nil] at chained

/-- Until the time stamp counter is about to wrap around, exactly one tick is outstanding
whenever the kernel runs, and the ticks taken over are no more than the periods that have
passed since `kmain` armed the first one. -/
theorem tick_chain (on : PoweredOn n) (quiet : n.apic.lapic.irr timerVec = false)
    (boot : n.kmain = .ok start) (ticking : start.time.Ticking)
    (run : NodeRun text start events n') (alive : ∀ message, n'.activity ≠ .panicked message)
    (fits : n'.time.tsc.toNat + start.time.period.toNat < 2 ^ 64) :
    n'.outstandingTicks = 1 ∧
      start.time.tsc.toNat + ticksIn events * start.time.period.toNat ≤ n'.time.tsc.toNat := by
  have place := (runs_chained on quiet boot ticking run).place alive fits
  exact ⟨place.outstandingTicks, place.rate⟩

theorem NodeStep.waits (text : StubText) {cycles : Nat}
    (fits : n.time.tsc.toNat + cycles < 2 ^ 64) :
    ∃ n', NodeStep text n (.clock cycles) n' ∧ n'.activity = n.activity ∧ n'.apic = n.apic ∧
      n'.time.deadline = n.time.deadline ∧ n'.time.tsc.toNat = n.time.tsc.toNat + cycles := by
  refine ⟨_, .clock cycles fits, rfl, rfl, rfl, ?_⟩
  rw [BitVec.toNat_add, BitVec.toNat_ofNat]
  omega

/-- The timer goes off within one period. -/
theorem Chained.timer_goes_off (text : StubText) (chained : Chained start events n)
    (idle : n.activity = .idle)
    (fits : n.time.tsc.toNat + start.time.period.toNat < 2 ^ 64) :
    ∃ n', Advances text n [] n' ∧ n'.activity = .idle ∧
      n'.apic.lapic.irr = Function.update n.apic.lapic.irr timerVec true ∧
      n'.time.tsc.toNat ≤ n.time.tsc.toNat + start.time.period.toNat := by
  have alive : ∀ message, n.activity ≠ .panicked message := by simp [idle]
  have free : ¬ n.activity.Owes := by
    rw [idle]
    exact id
  rcases (chained.place alive fits).requested_or_armed free with
    ⟨request, -⟩ | ⟨-, armed, late⟩
  · refine ⟨n, .refl n, idle, ?_, by omega⟩
    rw [← request, Function.update_eq_self]
  · -- no time has to pass if the deadline is over already
    obtain ⟨waited, wait, activity, apic, deadline, tsc⟩ :=
      @NodeStep.waits n text (n.time.deadline.toNat - n.time.tsc.toNat) (by omega)
    have due : waited.time.deadline ≤ waited.time.tsc := by
      rw [BitVec.le_def, deadline, tsc]
      omega
    have configured := (wait.moves chained.orderly.configured).configured
      chained.orderly.configured
    have timer : NodeStep text waited .timer _ := .timer (deadline ▸ armed) due
    refine ⟨_, (wait.advances trivial).trans (timer.advances trivial), activity.trans idle, ?_, ?_⟩
    · change waited.apic.lapic.timerEvent.irr = _
      rw [configured.timerEvent, apic]
      rfl
    · change waited.time.tsc.toNat ≤ _
      omega

/-- Whenever the kernel runs and only vectors with a handler are requested, the next tick is
taken over and handled after no more than one period, without any step but the processor's
own. -/
theorem tick_follows (on : PoweredOn n) (quiet : n.apic.lapic.irr timerVec = false)
    (boot : n.kmain = .ok start) (ticking : start.time.Ticking)
    (run : NodeRun text start events n') (alive : ∀ message, n'.activity ≠ .panicked message)
    (fits : n'.time.tsc.toNat + start.time.period.toNat < 2 ^ 64)
    (irqs : ∀ vec, n'.apic.lapic.irr vec = true → IsIrq vec) :
    ∃ accepted n'', Advances text n' accepted n'' ∧ timerVec ∈ accepted ∧
      n''.activity = .idle ∧
      n''.time.tsc.toNat ≤ n'.time.tsc.toNat + start.time.period.toNat := by
  have chained := runs_chained on quiet boot ticking run
  obtain ⟨free, ⟨more, rest, quick⟩, idle, irr, tsc⟩ :=
    finishes text chained.orderly.configured alive
  obtain ⟨due, ⟨more', rest', quick'⟩, idle', irr', tsc'⟩ :=
    (rest.chained chained).timer_goes_off text idle (tsc ▸ fits)
  have orderly := rest'.orderly (rest.orderly chained.orderly)
  have irqs' : ∀ vec, due.apic.lapic.irr vec = true → IsIrq vec := by
    intro vec request
    rw [irr', irr] at request
    by_cases timer : vec = timerVec
    · exact Or.inr (Or.inl timer)
    · rw [Function.update_of_ne timer] at request
      exact irqs vec request
  obtain ⟨last, served, idle'', -, tsc''⟩ := orderly.served text (by simp [idle']) irqs'
  have whole := Advances.trans ⟨more, rest, quick⟩ (Advances.trans ⟨more', rest', quick'⟩ served)
  refine ⟨_, last, whole, ?_, idle'', ?_⟩
  · simp [mem_requestedVectors, irr']
  · rw [tsc'', ← tsc]
    exact tsc'

end

/-! ### A clock of 3 GHz -/

theorem Booted.clock_firstNode {start : Node} (booted : Booted firstNode start) :
    start.time.Ticking ∧ start.time.tsc.toNat = 5000 ∧
      start.time.period.toNat = 30000000 := by
  have time : start.time = crystalTime := booted.time
  rw [time]
  unfold TimeState.Ticking
  decide

/-- The first tick has been handled, and ten milliseconds have passed at least. -/
theorem tick_chain_firstNode :
    ∃ start events n', firstNode.kmain = .ok start ∧ NodeRun lowText start events n' ∧
      ticksIn events = 1 ∧ n'.outstandingTicks = 1 ∧ 5000 + 1 * 30000000 ≤ n'.time.tsc.toNat := by
  obtain ⟨start, boot, booted⟩ := firstNode_boots
  obtain ⟨ticking, origin, period⟩ := booted.clock_firstNode
  have chained := booted.chained firstNode_poweredOn rfl ticking
  obtain ⟨due, ⟨more, rest, none, -⟩, idle, irr, tsc⟩ :=
    chained.timer_goes_off lowText booted.activity (by omega)
  have only : ∀ vec, due.apic.lapic.irr vec = true ↔ vec = timerVec := by
    intro vec
    rw [irr, booted.irr, Function.update_apply]
    split
    · simp_all
    · exact iff_of_false Bool.false_ne_true (by assumption)
  obtain ⟨last, ⟨more', rest', accepted, -⟩, idle', -, tsc'⟩ :=
    serves_next (rest.orderly chained.orderly) idle (Or.inr (Or.inl rfl))
      (highestVector_only only)
  have one : ticksIn (more' ++ more) = 1 := by
    have both : acceptedIn (more' ++ more) = acceptedIn more' ++ acceptedIn more :=
      List.filterMap_append
    rw [ticksIn, both, accepted, none]
    decide
  have holds := tick_chain firstNode_poweredOn rfl boot ticking (rest.append rest')
    (by simp [idle']) (by rw [tsc']; omega)
  rw [one, origin, period] at holds
  exact ⟨start, _, last, boot, rest.append rest', one, holds⟩

/-- The first tick follows after no more than ten milliseconds. -/
theorem tick_follows_firstNode :
    ∃ start accepted n', firstNode.kmain = .ok start ∧ Advances lowText start accepted n' ∧
      timerVec ∈ accepted ∧ n'.time.tsc.toNat ≤ 5000 + 30000000 := by
  obtain ⟨start, boot, booted⟩ := firstNode_boots
  obtain ⟨ticking, origin, period⟩ := booted.clock_firstNode
  obtain ⟨accepted, last, advances, taken, -, tsc⟩ :=
    tick_follows firstNode_poweredOn rfl boot ticking
      (NodeRun.start : NodeRun lowText start [] start) (by simp [booted.activity]) (by omega)
      (fun vec request => by
        rw [booted.irr] at request
        cases request)
  rw [origin, period] at tsc
  exact ⟨start, accepted, last, boot, advances, taken, tsc⟩

end RincOs
