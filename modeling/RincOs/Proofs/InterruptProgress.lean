/-
Module: RincOs.Proofs.InterruptProgress
Purpose: Handlers come to their end.  From wherever the processor stands, its own
  steps lead back to the end of `kmain`, and from there they serve every requested
  interrupt in the order of priority.
Trusted boundary: none
Main exports:
  Advances, Finishes, finishes, serves_next, requestedVectors, drains, requests_served
-/
import RincOs.Proofs.InterruptRuns

namespace RincOs

/-! ### Handlers come to their end -/

theorem NodeRun.append {text : StubText} {n n' n'' : Node} {before after : List NodeEvent}
    (first : NodeRun text n before n') (second : NodeRun text n' after n'') :
    NodeRun text n (after ++ before) n'' := by
  induction second with
  | start => exact first
  | step _ next inductionHypothesis => exact .step inductionHypothesis next

/-- The steps the processor makes by itself. -/
def NodeEvent.Own : NodeEvent → Prop
  | .request _ | .spurious | .fault _ _ => False
  | .accept vec => IsIrq vec
  | _ => True

/-- A run of the processor's own steps, which takes the listed interrupts over. -/
def Advances (text : StubText) (n : Node) (accepted : List (BitVec 8)) (n' : Node) : Prop :=
  ∃ events, NodeRun text n events n' ∧ acceptedIn events = accepted ∧
    ∀ event ∈ events, event.Own

section

variable {text : StubText} {n n' n'' : Node} {events : List NodeEvent}

theorem Advances.refl (n : Node) : Advances text n [] n := ⟨[], .start, rfl, by simp⟩

theorem Advances.trans {accepted accepted' : List (BitVec 8)}
    (first : Advances text n accepted n') (second : Advances text n' accepted' n'') :
    Advances text n (accepted' ++ accepted) n'' := by
  obtain ⟨before, run, rfl, own⟩ := first
  obtain ⟨after, run', rfl, own'⟩ := second
  refine ⟨after ++ before, run.append run', List.filterMap_append, ?_⟩
  exact List.forall_mem_append.mpr ⟨own', own⟩

theorem NodeStep.advances {event : NodeEvent} (step : NodeStep text n event n')
    (own : event.Own) : Advances text n (acceptedIn [event]) n' :=
  ⟨[event], .step .start step, rfl, by simpa using own⟩

/-- The way back to the end of `kmain`, on which nothing is requested and no time
passes. -/
def Finishes (text : StubText) (n : Node) : Prop :=
  ∃ n', Advances text n [] n' ∧ n'.activity = .idle ∧
    n'.apic.lapic.irr = n.apic.lapic.irr ∧ n'.time.tsc = n.time.tsc

theorem Finishes.step {event : NodeEvent} (step : NodeStep text n event n') (own : event.Own)
    (quiet : acceptedIn [event] = []) (irr : n'.apic.lapic.irr = n.apic.lapic.irr)
    (tsc : n'.time.tsc = n.time.tsc) (rest : Finishes text n') : Finishes text n := by
  obtain ⟨last, advances, idle, irr', tsc'⟩ := rest
  have first := step.advances own
  rw [quiet] at first
  exact ⟨last, first.trans advances, idle, irr'.trans irr, tsc'.trans tsc⟩

theorem finishes_idle (idle : n.activity = .idle) : Finishes text n :=
  ⟨n, .refl n, idle, rfl, rfl⟩

theorem finishes_ended {ctx : ExceptionContext} (ended : n.activity = .ended ctx) :
    Finishes text n :=
  .step (.iret ended) trivial rfl rfl rfl (finishes_idle rfl)

theorem finishes_dispatched {ctx : ExceptionContext} (configured : Configured n)
    (dispatched : n.activity = .dispatched ctx) : Finishes text n := by
  refine .step (.eoi dispatched (ApicMachine.eoi_ready configured.ready)) trivial rfl ?_ rfl
    (finishes_ended rfl)
  exact (congrArg Lapic.irr n.apic.lapic.retire_eq :)

theorem finishes_arming {ctx : ExceptionContext} {deadline : Word} (configured : Configured n)
    (arming : n.activity = .arming ctx deadline) : Finishes text n := by
  have step : NodeStep text n .arm _ := .arm arming (configured.arms arming)
  exact .step step trivial rfl rfl (n.time.armOneShot_kept deadline).2.2
    (finishes_dispatched ((step.moves configured).configured configured) rfl)

theorem Node.afterDispatch_cases (n : Node) (ctx : ExceptionContext) :
    n.afterDispatch ctx = .dispatched ctx ∨
      ∃ deadline, n.time.nextDeadline = some deadline ∧
        n.afterDispatch ctx = .arming ctx deadline := by
  rw [Node.afterDispatch]
  cases n.time.nextDeadline <;> split_ifs <;> simp

theorem finishes_entered {ctx : ExceptionContext} (configured : Configured n)
    (entered : n.activity = .entered ctx) : Finishes text n := by
  obtain ⟨tlb, done⟩ := configured.dispatchIrq ctx
  have step : NodeStep text n .dispatch _ := .dispatch entered done
  have configured' := (step.moves configured).configured configured
  refine .step step trivial rfl rfl rfl ?_
  rcases n.afterDispatch_cases ctx with dispatched | ⟨deadline, -, arming⟩
  · exact finishes_dispatched configured' dispatched
  · exact finishes_arming configured' arming

/-- Wherever a handler stands, it comes to its end by the processor's own steps. -/
theorem finishes (text : StubText) (configured : Configured n)
    (alive : ∀ message, n.activity ≠ .panicked message) : Finishes text n := by
  cases activity : n.activity with
  | idle => exact finishes_idle activity
  | entered ctx => exact finishes_entered configured activity
  | arming ctx deadline => exact finishes_arming configured activity
  | dispatched ctx => exact finishes_dispatched configured activity
  | ended ctx => exact finishes_ended activity
  | panicked message => exact absurd activity (alive message)

theorem NodeRun.orderly {before : List NodeEvent} (run : NodeRun text n events n')
    (orderly : Orderly before n) : Orderly (events ++ before) n' := by
  induction run with
  | start => exact orderly
  | step _ next inductionHypothesis => exact next.orderly inductionHypothesis

/-- The interrupt next in line is taken over and handled. -/
theorem serves_next {vec : BitVec 8} (orderly : Orderly events n) (idle : n.activity = .idle)
    (irq : IsIrq vec) (next : highestVector n.apic.lapic.irr = some vec) :
    ∃ n', Advances text n [vec] n' ∧ n'.activity = .idle ∧
      n'.apic.lapic.irr = Function.update n.apic.lapic.irr vec false ∧
      n'.time.tsc = n.time.tsc := by
  obtain ⟨pending, serves⟩ := orderly.serves
  obtain rfl := serves.idle idle
  have enabled := (serves.running (by simp [idle])).2.mpr idle
  have high := irq.high
  have deliverable : n.apic.lapic.Deliverable vec := by
    refine ⟨next, by omega, fun other service => ?_⟩
    rw [serves.highestVector_isr] at service
    cases service
  have step : NodeStep text n (.accept vec) _ :=
    .accept idle enabled deliverable (.gate (contextFor vec) irq.installed high ⟨rfl, rfl⟩)
  have configured := (step.moves orderly.configured).configured orderly.configured
  have finished : Finishes text _ := finishes_entered configured rfl
  obtain ⟨last, rest, idle', irr, tsc⟩ := finished
  exact ⟨last, (step.advances irq).trans rest, idle', irr, tsc⟩

/-! ### Everything requested is served -/

/-- The requested vectors from the highest to the lowest. -/
def Lapic.requestedVectors (l : Lapic) : List (BitVec 8) :=
  ((List.range 256).reverse.map (BitVec.ofNat 8)).filter l.irr

theorem highestVector_irr (l : Lapic) : highestVector l.irr = l.requestedVectors.head? := by
  rw [Lapic.requestedVectors, List.head?_filter]
  rfl

theorem mem_requestedVectors {l : Lapic} {vec : BitVec 8} :
    vec ∈ l.requestedVectors ↔ l.irr vec = true := by
  rw [Lapic.requestedVectors, List.mem_filter]
  exact and_iff_right (mem_vectors vec)

/-- Taking over the first vector leaves the others. -/
theorem requestedVectors_update {l l' : Lapic} {vec : BitVec 8} {rest : List (BitVec 8)}
    (requested : l.requestedVectors = vec :: rest)
    (irr : l'.irr = Function.update l.irr vec false) : l'.requestedVectors = rest := by
  have distinct : l.requestedVectors.Pairwise fun v w => w.toNat < v.toNat :=
    vectors_descending.filter _
  rw [requested, List.pairwise_cons] at distinct
  have both : l'.irr = fun other => decide (other ≠ vec) && l.irr other := by
    funext other
    rw [irr]
    by_cases same : other = vec <;> simp [same]
  have twice : l'.requestedVectors = l.requestedVectors.filter fun other => other ≠ vec := by
    rw [Lapic.requestedVectors, both, Lapic.requestedVectors, List.filter_filter]
  rw [twice, requested, List.filter_cons_of_neg (by simp), List.filter_eq_self]
  intro other later
  have lower := distinct.1 other later
  apply decide_eq_true
  rintro rfl
  exact Nat.lt_irrefl _ lower

/-- From the end of `kmain` the requested interrupts are handled one by one. -/
theorem drains (text : StubText) (requested : List (BitVec 8)) :
    ∀ {events : List NodeEvent} {n : Node},
    Orderly events n → n.activity = .idle → n.apic.lapic.requestedVectors = requested →
    (∀ vec ∈ requested, IsIrq vec) →
    ∃ n', Advances text n requested.reverse n' ∧ n'.activity = .idle ∧
      n'.apic.lapic.requestedVectors = [] ∧ n'.time.tsc = n.time.tsc := by
  induction requested with
  | nil => exact fun {events n} orderly idle none _ => ⟨n, .refl n, idle, none, rfl⟩
  | cons vec rest inductionHypothesis =>
      intro events n orderly idle first irqs
      obtain ⟨irq, irqs⟩ := List.forall_mem_cons.mp irqs
      have next : highestVector n.apic.lapic.irr = some vec := by
        rw [highestVector_irr, first, List.head?_cons]
      obtain ⟨served, ⟨more, run, accepted, own⟩, idle', irr, tsc⟩ :=
        serves_next orderly idle irq next
      obtain ⟨last, advances, idle'', none, tsc'⟩ := inductionHypothesis
        (run.orderly orderly) idle' (requestedVectors_update first irr) irqs
      refine ⟨last, ?_, idle'', none, tsc'.trans tsc⟩
      rw [List.reverse_cons]
      exact Advances.trans ⟨more, run, accepted, own⟩ advances

theorem Orderly.served (text : StubText) (orderly : Orderly events n)
    (alive : ∀ message, n.activity ≠ .panicked message)
    (irqs : ∀ vec, n.apic.lapic.irr vec = true → IsIrq vec) :
    ∃ n', Advances text n n.apic.lapic.requestedVectors.reverse n' ∧ n'.activity = .idle ∧
      n'.apic.lapic.requestedVectors = [] ∧ n'.time.tsc = n.time.tsc := by
  obtain ⟨free, ⟨more, rest, accepted, own⟩, idle, irr, tsc⟩ :=
    finishes text orderly.configured alive
  have same : free.apic.lapic.requestedVectors = n.apic.lapic.requestedVectors := by
    rw [Lapic.requestedVectors, irr, Lapic.requestedVectors]
  obtain ⟨last, advances, idle', none, tsc'⟩ :=
    drains text _ (rest.orderly orderly) idle same
      fun vec member => irqs vec (mem_requestedVectors.mp member)
  have whole := Advances.trans ⟨more, rest, accepted, own⟩ advances
  rw [List.append_nil] at whole
  exact ⟨last, whole, idle', none, tsc'.trans tsc⟩

/-- Whenever the kernel runs and only vectors with a handler are requested, the processor's
own steps end the handler that is running, if there is one, and take over and handle every
requested interrupt, the highest first. -/
theorem requests_served {start : Node} (on : PoweredOn n) (boot : n.kmain = .ok start)
    (run : NodeRun text start events n') (alive : ∀ message, n'.activity ≠ .panicked message)
    (irqs : ∀ vec, n'.apic.lapic.irr vec = true → IsIrq vec) :
    ∃ n'', Advances text n' n'.apic.lapic.requestedVectors.reverse n'' ∧
      n''.activity = .idle ∧ n''.interruptFlag = true ∧
      ∀ vec, n''.apic.lapic.irr vec = false ∧ n''.apic.lapic.isr vec = false := by
  have orderly := runs_orderly on boot run
  obtain ⟨last, ⟨more, rest, advances⟩, idle, none, -⟩ := orderly.served text alive irqs
  obtain ⟨pending, serves⟩ := (rest.orderly orderly).serves
  obtain rfl := serves.idle idle
  refine ⟨last, ⟨more, rest, advances⟩, idle, ?_, fun vec => ⟨?_, ?_⟩⟩
  · exact (serves.running (by simp [idle])).2.mpr idle
  · have absent := mem_requestedVectors.not.mp (none ▸ List.not_mem_nil : vec ∉ _)
    simpa using absent
  · simpa using serves.isr vec

end

/-- A shootdown overtakes the keyboard. -/
theorem requests_served_firstNode :
    ∃ start n' n'', firstNode.kmain = .ok start ∧
      NodeRun lowText start [.request tlbShootdownVec, .request 33] n' ∧
      Advances lowText n' [33, tlbShootdownVec] n'' ∧ n''.activity = .idle := by
  obtain ⟨start, boot, booted⟩ := firstNode_boots
  have run : NodeRun lowText start [.request tlbShootdownVec, .request 33] _ :=
    .step (.step .start (.request 33 (by decide))) (.request tlbShootdownVec (by decide))
  have irr : ((start.apic.lapic.request 33).request tlbShootdownVec).irr =
      ((resetLapic.request 33).request tlbShootdownVec).irr := by
    rw [Lapic.request, Lapic.request, booted.irr]
    rfl
  have requested : ((start.apic.lapic.request 33).request tlbShootdownVec).requestedVectors =
      [tlbShootdownVec, 33] := by
    rw [Lapic.requestedVectors, irr]
    decide +kernel
  have irqs : ∀ vec, ((start.apic.lapic.request 33).request tlbShootdownVec).irr vec = true →
      IsIrq vec := by
    intro vec member
    rw [← mem_requestedVectors, requested] at member
    revert vec
    unfold IsIrq
    decide
  obtain ⟨last, advances, idle, -⟩ := requests_served firstNode_poweredOn boot run
    (fun message panicked => by
      have still : start.activity = .panicked message := panicked
      simp [booted.activity] at still) irqs
  refine ⟨start, _, last, boot, run, ?_, idle⟩
  convert advances using 1
  exact (congrArg List.reverse requested).symm

end RincOs
