/-
Module: RincOs.Proofs.KernelRoot
Purpose: The kernel root and the kernel halves over calls.  Every space is made
  with the kernel half of the kernel's PML4, and calls on the lower halves leave
  these halves alone.
Trusted boundary: none
Main exports:
  KernelAt, KernelRoot, addressSpaceNew_kernelRoot, SpacesEnd, RunInv.activate,
  call_spacesEnd
-/
import RincOs.Arch.Smp
import RincOs.Proofs.WalkStability

namespace RincOs

open RadixForest LawfulFrameAlloc

variable {A : Type}

/-- The kernel space is known and is the one at `root`. -/
def KernelAt (root : PhysAddr) (k : Machine) : Prop :=
  k.kasHandle = some .kas ∧ k.kas = some ⟨root⟩

/-- The kernel space is the one at `root`, or it is still to be adopted; then
`root` is active and no space was created. -/
def KernelRoot (root active : PhysAddr) (k : Machine) : Prop :=
  KernelAt root k ∨ k.kasHandle = none ∧ active = root ∧ ∀ a, ¬ Used k a

section

variable [PageTableFrameAlloc A] {root active : PhysAddr} {s s' : Sys A}

/-- `address_space_new` copies from the kernel root. -/
theorem addressSpaceNew_kernelRoot {cpu : Cpu}
    (known : KernelRoot root (cpu.cr3 &&& addrMask) s.toMachine) :
    ∃ s0, Adopts s s0 ∧
      (KernelRoot root (cpu.cr3 &&& addrMask) s0.toMachine ∧
          (addressSpaceNew cpu).exec s = (.error .invalidArgs, s0) ∨
        KernelAt root s0.toMachine ∧
          (addressSpaceNew cpu).exec s = (newFromKernel root).exec s0) := by
  have adopts := initKernel_adopts cpu s
  rcases known with ⟨handle, kas⟩ | ⟨unknown, rfl, unused⟩
  · rw [adopts.once (by simp [handle])] at adopts
    exact ⟨s, adopts, Or.inr ⟨⟨handle, kas⟩, addressSpaceNew_adopted cpu handle kas⟩⟩
  · rcases initKernel_cases cpu s with ⟨h, known, -⟩ | ⟨-, -, failed⟩ | ⟨-, -, adopted⟩
    · rw [unknown] at known
      cases known
    · rw [failed] at adopts
      refine ⟨s, adopts, Or.inl ⟨Or.inr ⟨unknown, rfl, unused⟩, ?_⟩⟩
      rw [addressSpaceNew, MmuM.exec_bind_error failed]
    · rw [adopted] at adopts
      refine ⟨_, adopts, Or.inr ⟨⟨rfl, rfl⟩, ?_⟩⟩
      rw [addressSpaceNew, MmuM.exec_bind_ok adopted, MmuM.exec_get_bind]

/-- The spaces after a call: those from before with their roots, apart from a
destroyed one, and possibly one whose root has the kernel half of `root`. -/
structure SpacesEnd (root active : PhysAddr) (call : Call) (s s' : Sys A) : Prop where
  kernel : KernelRoot root active s'.toMachine
  kept : ∀ {a}, Used s.toMachine a → call ≠ .destroy (.slot a) →
    Used s'.toMachine a ∧ s'.rootOf a = s.rootOf a
  shared : ∀ {a}, Used s'.toMachine a →
    Used s.toMachine a ∧ s'.rootOf a = s.rootOf a ∨
      ∀ i, kernelPml4Start ≤ i → readEntry s'.mem (s'.rootOf a) i = readEntry s.mem root i

omit [PageTableFrameAlloc A] in
/-- The case of a call that leaves the slots alone. -/
theorem SpacesEnd.of_slots {call : Call} (slots : s'.asSlots = s.asSlots)
    (kernel : KernelRoot root active s'.toMachine) : SpacesEnd root active call s s' where
  kernel := kernel
  kept {a} used _ := by
    rw [Used, Machine.rootOf, slots]
    exact ⟨used, rfl⟩
  shared {a} used := by
    rw [Used, slots] at used
    rw [Machine.rootOf, slots]
    exact Or.inl ⟨used, rfl⟩

omit [PageTableFrameAlloc A] in
theorem Adopts.spacesEnd {call : Call} {s0 : Sys A} (adopts : Adopts s s0)
    (ends : SpacesEnd root active call s0 s') : SpacesEnd root active call s s' where
  kernel := ends.kernel
  kept {a} used other := by
    rw [Used, ← adopts.asSlots] at used
    rw [Machine.rootOf, Machine.rootOf, ← adopts.asSlots]
    exact ends.kept used other
  shared {a} used := by
    rw [Used, Machine.rootOf, Machine.rootOf, ← adopts.asSlots, ← adopts.mem]
    exact ends.shared used

variable [LawfulFrameAlloc A] {reserved : PhysAddr → Prop}

/-- The forest does not depend on the statics that `activate` writes. -/
theorem RunInv.activate {k : Sys A} (inv : RunInv k) (index : Fin maxCpus)
    (aspace : AddressSpace) :
    RunInv { k with toMachine := (k.toMachine.activate index aspace).2 } where
  trees :=
    { roots := inv.trees.roots
      forest := inv.trees.forest
      entries := inv.trees.entries
      valid := inv.trees.valid
      held := inv.trees.held }
  handles := ⟨inv.handles.slot, inv.handles.kernel⟩

/-- The kernel half of a new root is that of the root it is copied from. -/
theorem readEntry_newRoot {kernelRoot f : PhysAddr} {al : A} {m : Mem} (valid : Valid s.ptAlloc)
    (alloc : allocFrame4k s.ptAlloc s.mem = (some f, al, m)) (rootFrame : IsFrame kernelRoot)
    (apart : kernelRoot ≠ f) {i : Fin entryCount} (upper : kernelPml4Start ≤ i) :
    readEntry (newRootMem m kernelRoot f) f i = readEntry s.mem kernelRoot i := by
  obtain ⟨-, newFrame, -, -, outside⟩ := alloc_some valid alloc
  rw [readEntry_newRootMem_upper _ _ _ upper, readEntry_zeroFrame_ne newFrame rootFrame apart]
  apply outside
  exact fun inside => apart ((inFrame_entryAddr_iff rootFrame newFrame i).mp inside).symm

theorem newFromKernel_spacesEnd {cpu : Cpu} {result : Except MapError AddressSpace}
    (valid : Valid s.ptAlloc) (spares : Spares reserved s.ptAlloc) (isReserved : reserved root)
    (rootFrame : IsFrame root) (known : KernelAt root s.toMachine)
    (done : (newFromKernel root).exec s = (result, s')) :
    SpacesEnd root active (.new cpu) s s' := by
  rcases newFromKernel_cases root s with
    ⟨al, m, -, ends⟩ | ⟨f, al, m, alloc, ⟨-, ends⟩ | ⟨i, unused, ends⟩⟩
  · obtain ⟨-, rfl⟩ := Prod.mk.inj (ends.symm.trans done)
    exact .of_slots rfl (Or.inl known)
  · obtain ⟨-, rfl⟩ := Prod.mk.inj (ends.symm.trans done)
    exact .of_slots rfl (Or.inl known)
  · obtain ⟨-, rfl⟩ := Prod.mk.inj (ends.symm.trans done)
    obtain ⟨-, -, -, held, -⟩ := alloc_some valid alloc
    have apart : root ≠ f := fun same =>
      (spares.serves (.alloc .refl alloc)).held ((held f).mpr (Or.inr rfl)) (same ▸ isReserved)
    have old : ∀ {a}, Used s.toMachine a → a ≠ i := by
      rintro a used rfl
      rw [Used, unused] at used
      cases used
    refine ⟨Or.inl known, fun {a} used _ => ?_, fun {a} used => ?_⟩
    · simpa [Used, Machine.rootOf, old used] using used
    · by_cases new : a = i
      · right
        intro j upper
        subst new
        have root : (Function.update s.asSlots a (newSlot a f) a).space.pml4Phys = f := by
          simp [newSlot]
        rw [Machine.rootOf, root]
        exact readEntry_newRoot valid alloc rootFrame apart upper
      · left
        simpa [Used, Machine.rootOf, new] using used

theorem LowerStep.spacesEnd {call : Call} {live : Fin maxAddressSpaces → Prop}
    {a : Fin maxAddressSpaces} (step : LowerStep live a s s')
    (known : KernelRoot root active s.toMachine) : SpacesEnd root active call s s' := by
  apply SpacesEnd.of_slots step.slots
  rw [KernelRoot, KernelAt, step.kernel.1, step.kernel.2, used_congr step.slots]
  exact known

theorem Destroys.spacesEnd {live : Fin maxAddressSpaces → Prop} {a : Fin maxAddressSpaces}
    (destroys : Destroys live a s s') (known : KernelRoot root active s.toMachine) :
    SpacesEnd root active (.destroy (.slot a)) s s' where
  kernel := by
    rcases known with known | ⟨unknown, same, unused⟩
    · left
      rw [KernelAt, destroys.machine]
      exact known
    · right
      rw [destroys.used, destroys.machine]
      exact ⟨unknown, same, fun b used => unused b used.1⟩
  kept {b} used other := by
    have apart : b ≠ a := fun same => other (by rw [same])
    rw [destroys.used, Machine.rootOf, destroys.asSlots, Function.update_of_ne apart]
    exact ⟨⟨used, apart⟩, rfl⟩
  shared {b} used := by
    rw [destroys.used] at used
    rw [Machine.rootOf, destroys.asSlots, Function.update_of_ne used.2]
    exact Or.inl ⟨used.1, rfl⟩

theorem call_spacesEnd {call : Call} {result : Except MapError AddressSpace}
    (inv : RunInv s) (spares : Spares reserved s.ptAlloc) (isReserved : reserved root)
    (rootFrame : IsFrame root) (known : KernelRoot root active s.toMachine)
    (may : LowerCall s.toMachine call)
    (own : ∀ cpu, call = .new cpu → cpu.cr3 &&& addrMask = active)
    (done : call.exec s = (result, s')) : SpacesEnd root active call s s' := by
  cases lowerCall_ends inv may done with
  | @new cpu =>
      obtain rfl := own cpu rfl
      obtain ⟨s0, adopts, ⟨known, ends⟩ | ⟨known, ends⟩⟩ := addressSpaceNew_kernelRoot known
      · obtain ⟨-, rfl⟩ := Prod.mk.inj (ends.symm.trans done)
        exact .of_slots adopts.asSlots known
      · rw [← adopts.ptAlloc] at spares
        apply adopts.spacesEnd
        exact newFromKernel_spacesEnd (adopts.ptAlloc ▸ inv.trees.valid) spares isReserved
          rootFrame known (ends.symm.trans done)
  | destroy _ destroys => exact destroys.spacesEnd known
  | map _ _ ends => exact (ends.lowerStep inv.trees).spacesEnd known
  | unmap _ _ ends => exact (ends.lowerStep inv.trees).spacesEnd known
  | protect _ _ ends => exact (ends.lowerStep inv.trees).spacesEnd known

end

end RincOs
