/-
Module: RincOs.Proofs.Runs
Purpose: Runs of the backend: sequences of calls with successes and failures
  mixed.  The forest of lower-half tables is an invariant of every run on
  lower-half addresses, and a call on one space leaves the others alone.
Trusted boundary: none
Main exports:
  Call, Call.exec, Runs, Runs.invariant, LowerCall, RunInv, CallEnds, lowerCall_ends,
  lowerCall_step
-/
import RincOs.Proofs.SpaceLifecycle

namespace RincOs

open RadixForest LawfulFrameAlloc

variable {A : Type}

/-! ### Calls and runs -/

/-- A call of the backend that changes its state. -/
inductive Call where
  | new (cpu : Cpu)
  | destroy (aspace : AddressSpace)
  | map (aspace : AddressSpace) (v : VirtAddr) (p : PhysAddr) (flags : MapFlags)
  | unmap (aspace : AddressSpace) (v : VirtAddr)
  | protect (aspace : AddressSpace) (v : VirtAddr) (flags : MapFlags)

/-- The result of a mapping operation, with the handle it was called on. -/
def withHandle (aspace : AddressSpace) (outcome : Except MapError PUnit × Sys A) :
    Except MapError AddressSpace × Sys A :=
  (outcome.1.map fun _ => aspace, outcome.2)

def Call.exec [PageTableFrameAlloc A] :
    Call → Sys A → Except MapError AddressSpace × Sys A
  | .new cpu, s => (addressSpaceNew cpu).exec s
  | .destroy aspace, s => (.ok aspace, addressSpaceDestroy aspace s)
  | .map aspace v p flags, s => withHandle aspace ((map4k aspace v p flags).exec s)
  | .unmap aspace v, s => withHandle aspace ((unmap4k aspace v).exec s)
  | .protect aspace v flags, s => withHandle aspace ((protect4k aspace v flags).exec s)

/-- A call with its result. -/
structure Event where
  call : Call
  result : Except MapError AddressSpace

/-- `Runs allowed start history s`: from `start`, calls that were allowed when
they were made lead to `s`.  The history lists them, the latest first. -/
inductive Runs [PageTableFrameAlloc A] (allowed : Machine → Call → Prop)
    (start : Sys A) : List Event → Sys A → Prop where
  | start : Runs allowed start [] start
  | step {history : List Event} {s s' : Sys A} {call : Call}
      {result : Except MapError AddressSpace} (before : Runs allowed start history s)
      (may : allowed s.toMachine call) (done : call.exec s = (result, s')) :
      Runs allowed start (⟨call, result⟩ :: history) s'

theorem Runs.extend [PageTableFrameAlloc A] {allowed : Machine → Call → Prop}
    {start s : Sys A} {history : List Event} (run : Runs allowed start history s)
    (call : Call) (may : allowed s.toMachine call) :
    Runs allowed start (⟨call, (call.exec s).1⟩ :: history) (call.exec s).2 :=
  .step run may rfl

/-- A history determines the state it leads to. -/
theorem Runs.unique [PageTableFrameAlloc A] {allowed : Machine → Call → Prop}
    {start s s' : Sys A} {history : List Event} (one : Runs allowed start history s)
    (two : Runs allowed start history s') : s = s' := by
  induction one generalizing s' with
  | start =>
      cases two
      rfl
  | step _ _ done inductionHypothesis =>
      cases two with
      | step before _ done' =>
          obtain rfl := inductionHypothesis before
          exact (Prod.mk.inj (done.symm.trans done')).2

/-- What holds at the start and is kept by every allowed call holds after every
run. -/
theorem Runs.invariant [PageTableFrameAlloc A] {allowed : Machine → Call → Prop}
    {P : Sys A → Prop} {start s : Sys A} {history : List Event}
    (run : Runs allowed start history s) (initial : P start)
    (preserved : ∀ {s s' call result}, P s → allowed s.toMachine call →
      call.exec s = (result, s') → P s') : P s := by
  induction run with
  | start => exact initial
  | step _ may done inductionHypothesis => exact preserved inductionHypothesis may done

/-! ### Runs on lower-half addresses of live spaces -/

/-- The slots in use. -/
def Used (k : Machine) (a : Fin maxAddressSpaces) : Prop := (k.asSlots a).used = true

instance (k : Machine) (a : Fin maxAddressSpaces) : Decidable (Used k a) :=
  inferInstanceAs (Decidable ((k.asSlots a).used = true))

theorem used_congr {k k' : Machine} (slots : k'.asSlots = k.asSlots) : Used k' = Used k := by
  funext a
  rw [Used, Used, slots]

/-- The slots in use after one was filled. -/
theorem used_newSlot {k k' : Machine} {i : Fin maxAddressSpaces} {pml4 : PhysAddr}
    (slots : k'.asSlots = Function.update k.asSlots i (newSlot i pml4)) :
    Used k' = fun b => Used k b ∨ b = i := by
  funext b
  rw [Used, Used, slots, Function.update_apply]
  by_cases same : b = i <;> simp [same, newSlot]

/-- The call is on a live space that `address_space_new` made, at a lower-half
address; the other arguments are arbitrary. -/
def LowerCall (k : Machine) : Call → Prop
  | .new _ => True
  | .destroy aspace => ∃ a, aspace = .slot a ∧ Used k a
  | .map aspace v _ _ | .unmap aspace v | .protect aspace v _ =>
      ∃ a, aspace = .slot a ∧ Used k a ∧ LowerHalf v

/-- The call is made on this address space. -/
def Call.On (aspace : AddressSpace) : Call → Prop
  | .new _ => False
  | .destroy target | .map target _ _ _ | .unmap target _ | .protect target _ _ =>
      target = aspace

section

variable [PageTableFrameAlloc A] [LawfulFrameAlloc A]

/-- The tables of the slots in use form a forest the allocator knows, and the
handles are those of their slots. -/
structure RunInv (s : Sys A) : Prop where
  trees : TreesInv (Used s.toMachine) s
  handles : HandlesOk s.toMachine

/-- No address space was created yet. -/
structure NoSpaces (s : Sys A) : Prop where
  valid : Valid s.ptAlloc
  unused : ∀ a, ¬ Used s.toMachine a
  kernel : ∀ a, s.kasHandle ≠ some (.slot a)

theorem NoSpaces.runInv {s : Sys A} (start : NoSpaces s) : RunInv s where
  trees :=
    { roots := fun {a} used => absurd used (start.unused a)
      forest := fun {a} _ _ _ _ one _ => absurd one.live (start.unused a)
      entries := fun {a} _ _ _ table => absurd table.live (start.unused a)
      valid := start.valid
      held := fun {a} _ _ table => absurd table.live (start.unused a) }
  handles := ⟨fun {a} used => absurd used (start.unused a), start.kernel⟩

/-- The invariant after a call, and what the call left alone: the tables of the
other spaces, and all memory outside the frames of the allocator. -/
structure StepEnds (call : Call) (s s' : Sys A) : Prop where
  inv : RunInv s'
  keeps : Keeps (fun b => Used s.toMachine b ∧ ¬ call.On (.slot b)) s.toMachine s'.toMachine
  frame : ∀ x, s'.mem x = s.mem x ∨ ∃ t, IsFrame t ∧ InFrame t x ∧ Held s'.ptAlloc t
  nxe : s'.nxeEnabled = s.nxeEnabled

theorem LowerStep.stepEnds {call : Call} {a : Fin maxAddressSpaces} {s s' : Sys A}
    (step : LowerStep (Used s.toMachine) a s s')
    (before : TreesInv (Used s.toMachine) s) (handles : HandlesOk s.toMachine)
    (target : call.On (.slot a)) : StepEnds call s s' := by
  have used : Used s'.toMachine = Used s.toMachine := used_congr step.slots
  refine ⟨⟨used ▸ step.inv, ⟨?_, ?_⟩⟩, step.keeps.mono fun other => ⟨other.1, ?_⟩, ?_,
    step.nxe⟩
  · rw [step.slots]
    exact handles.slot
  · rw [step.kernel.2]
    exact handles.kernel
  · rintro rfl
    exact other.2 target
  · intro x
    rcases step.frame x with same | ⟨t, isFrame, inside, ⟨path, table⟩ | ⟨-, held⟩⟩
    · exact Or.inl same
    · exact Or.inr ⟨t, isFrame, inside, step.heldMono (before.held table)⟩
    · exact Or.inr ⟨t, isFrame, inside, held⟩

theorem WritesFresh.frame {s s' : Sys A} (fresh : WritesFresh s s') (x : Word) :
    s'.mem x = s.mem x ∨ ∃ t, IsFrame t ∧ InFrame t x ∧ Held s'.ptAlloc t := by
  rcases fresh x with same | ⟨t, isFrame, inside, -, held⟩
  · exact Or.inl same
  · exact Or.inr ⟨t, isFrame, inside, held⟩

/-- Handles stay right while the slots do and the kernel handle is a kernel one. -/
theorem HandlesOk.of_slots {k k' : Machine} (handles : HandlesOk k)
    (slots : k'.asSlots = k.asSlots)
    (kernel : k'.kasHandle = k.kasHandle ∨ k'.kasHandle = some .kas) : HandlesOk k' where
  slot := by
    rw [slots]
    exact handles.slot
  kernel i := by
    rcases kernel with same | known
    · rw [same]
      exact handles.kernel i
    · simp [known]

theorem NewEnds.stepEnds {cpu : Cpu} {s s' : Sys A} {r : Except MapError AddressSpace}
    (inv : RunInv s) (ends : NewEnds (Used s.toMachine) s (r, s')) :
    StepEnds (.new cpu) s s' := by
  cases ends with
  | invalidArgs adopts =>
      have used : Used s'.toMachine = Used s.toMachine := used_congr adopts.asSlots
      exact ⟨⟨used ▸ adopts.inv inv.trees,
        inv.handles.of_slots adopts.asSlots adopts.handle⟩, adopts.keeps,
        fun x => Or.inl (by rw [adopts.mem]), adopts.nxeEnabled⟩
  | outOfMemory inv' keeps fresh heldMono slots nxe handle =>
      have used : Used s'.toMachine = Used s.toMachine := used_congr slots
      exact ⟨⟨used ▸ inv', inv.handles.of_slots slots handle⟩, keeps.mono And.left,
        fresh.frame, nxe⟩
  | @ok _ i pml4 free inv' keeps fresh heldMono empty slots nxe handle =>
      have used : Used s'.toMachine = fun b => Used s.toMachine b ∨ b = i := used_newSlot slots
      refine ⟨⟨used ▸ inv', ⟨?_, ?_⟩⟩, keeps.mono And.left, fresh.frame, nxe⟩
      · intro b inUse
        rw [slots, Function.update_apply] at inUse ⊢
        by_cases same : b = i
        · simp [same, newSlot]
        · rw [if_neg same] at inUse ⊢
          exact inv.handles.slot inUse
      · intro b
        rcases handle with same | known
        · rw [same]
          exact inv.handles.kernel b
        · simp [known]

theorem Destroys.asSlots {live : Fin maxAddressSpaces → Prop} {a : Fin maxAddressSpaces}
    {s s' : Sys A} (destroys : Destroys live a s s') :
    s'.asSlots = Function.update s.asSlots a
      { s.asSlots a with used := false, space := ⟨0⟩ } := by
  rw [destroys.machine]

theorem Destroys.used {live : Fin maxAddressSpaces → Prop} {a : Fin maxAddressSpaces}
    {s s' : Sys A} (destroys : Destroys live a s s') :
    Used s'.toMachine = fun b => Used s.toMachine b ∧ b ≠ a := by
  funext b
  rw [Used, Used, destroys.asSlots, Function.update_apply]
  by_cases same : b = a <;> simp [same]

theorem Destroys.stepEnds {a : Fin maxAddressSpaces} {s s' : Sys A}
    (inv : RunInv s) (destroys : Destroys (Used s.toMachine) a s s') :
    StepEnds (.destroy (.slot a)) s s' := by
  have handle : s'.kasHandle = s.kasHandle := by rw [destroys.machine]
  refine ⟨⟨destroys.used ▸ destroys.inv, ⟨?_, ?_⟩⟩, destroys.keeps.mono fun other => ⟨other.1, ?_⟩,
    fun x => Or.inl (by rw [destroys.machine]), by rw [destroys.machine]⟩
  · intro b inUse
    rw [destroys.asSlots, Function.update_apply] at inUse ⊢
    by_cases same : b = a
    · simp [same] at inUse
    · rw [if_neg same] at inUse ⊢
      exact inv.handles.slot inUse
  · rw [handle]
    exact inv.handles.kernel
  · rintro rfl
    exact other.2 rfl

/-- What an allowed call has done, by the kind of the call. -/
inductive CallEnds (s : Sys A) : Call → Except MapError AddressSpace → Sys A → Prop where
  | new {cpu : Cpu} {result : Except MapError AddressSpace} {s' : Sys A}
      (ends : NewEnds (Used s.toMachine) s (result, s')) : CallEnds s (.new cpu) result s'
  | destroy {a : Fin maxAddressSpaces} {s' : Sys A} (used : Used s.toMachine a)
      (destroys : Destroys (Used s.toMachine) a s s') :
      CallEnds s (.destroy (.slot a)) (.ok (.slot a)) s'
  | map {a : Fin maxAddressSpaces} {v : VirtAddr} {p : PhysAddr} {flags : MapFlags}
      {outcome : Except MapError Unit} {s' : Sys A} (used : Used s.toMachine a)
      (lower : LowerHalf v)
      (ends : MapEnds (Used s.toMachine) a v p flags s (outcome, s')) :
      CallEnds s (.map (.slot a) v p flags) (outcome.map fun _ => .slot a) s'
  | unmap {a : Fin maxAddressSpaces} {v : VirtAddr} {outcome : Except MapError Unit}
      {s' : Sys A} (used : Used s.toMachine a) (lower : LowerHalf v)
      (ends : ReplaceEnds (Used s.toMachine) a v (fun _ _ => 0) s (outcome, s')) :
      CallEnds s (.unmap (.slot a) v) (outcome.map fun _ => .slot a) s'
  | protect {a : Fin maxAddressSpaces} {v : VirtAddr} {flags : MapFlags}
      {outcome : Except MapError Unit} {s' : Sys A} (used : Used s.toMachine a)
      (lower : LowerHalf v)
      (ends : ReplaceEnds (Used s.toMachine) a v (protectedEntry flags) s (outcome, s')) :
      CallEnds s (.protect (.slot a) v flags) (outcome.map fun _ => .slot a) s'

theorem lowerCall_ends {s s' : Sys A} {call : Call} {result : Except MapError AddressSpace}
    (inv : RunInv s) (may : LowerCall s.toMachine call) (done : call.exec s = (result, s')) :
    CallEnds s call result s' := by
  cases call with
  | new cpu =>
      have ends := addressSpaceNew_spec cpu inv.trees fun {b} inUse => inUse
      rw [Call.exec] at done
      rw [done] at ends
      exact .new ends
  | destroy aspace =>
      obtain ⟨a, rfl, used⟩ := may
      obtain ⟨rfl, rfl⟩ := Prod.mk.inj done
      exact .destroy used (addressSpaceDestroy_spec inv.trees inv.handles used used)
  | map aspace v p flags =>
      obtain ⟨a, rfl, used, lower⟩ := may
      obtain ⟨rfl, rfl⟩ := Prod.mk.inj done
      exact .map used lower (map4k_lower inv.trees used lower p flags)
  | unmap aspace v =>
      obtain ⟨a, rfl, used, lower⟩ := may
      obtain ⟨rfl, rfl⟩ := Prod.mk.inj done
      exact .unmap used lower (unmap4k_lower used lower)
  | protect aspace v flags =>
      obtain ⟨a, rfl, used, lower⟩ := may
      obtain ⟨rfl, rfl⟩ := Prod.mk.inj done
      exact .protect used lower (protect4k_lower used lower flags)

/-- One allowed call, whatever its outcome. -/
theorem lowerCall_step {s s' : Sys A} {call : Call} {result : Except MapError AddressSpace}
    (inv : RunInv s) (may : LowerCall s.toMachine call) (done : call.exec s = (result, s')) :
    StepEnds call s s' := by
  cases lowerCall_ends inv may done with
  | new ends => exact ends.stepEnds inv
  | destroy _ destroys => exact destroys.stepEnds inv
  | map _ _ ends => exact (ends.lowerStep inv.trees).stepEnds inv.trees inv.handles rfl
  | unmap _ _ ends => exact (ends.lowerStep inv.trees).stepEnds inv.trees inv.handles rfl
  | protect _ _ ends => exact (ends.lowerStep inv.trees).stepEnds inv.trees inv.handles rfl

theorem runInv_of_lowerRun {start s : Sys A} {history : List Event}
    (run : Runs LowerCall start history s) (initial : RunInv start) : RunInv s :=
  run.invariant initial fun inv may done => (lowerCall_step inv may done).inv

end

end RincOs
