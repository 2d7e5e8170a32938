/-
Module: RincOs.Proofs.Operations
Purpose: Each backend operation as one equation: what it returns and what state
  it leaves, with the checks in the order the source makes them.  Later proofs
  cite these equations and do not unfold the operations.
Trusted boundary: none
Main exports:
  linkTable, ensurePath, ensureTable_exec, map4k_exec, map4k_keeps, replaceLeaf_exec,
  replaceLeaf_cases, initKernel_cases, addressSpaceNew_cases
-/
import RincOs.Proofs.EntryBits

namespace RincOs

variable {A : Type}

@[simp] theorem exec_flushTlbPage (v : VirtAddr) (s : Sys A) :
    (flushTlbPage v : MmuM A PUnit).exec s =
      (.ok ⟨⟩, { s with tlbOps := s.tlbOps ++ [.invlpg v] }) := rfl

section

variable [PageTableFrameAlloc A]

theorem requestFrame_exec (s : Sys A) :
    (requestFrame : MmuM A PhysAddr).exec s =
      match allocFrame4k s.ptAlloc s.mem with
      | (none, a, m) => (.error .outOfMemory, { s with ptAlloc := a, mem := m })
      | (some frame, a, m) => (.ok frame, { s with ptAlloc := a, mem := m }) := by
  rw [requestFrame, MmuM.exec_get_bind]
  rcases allocFrame4k s.ptAlloc s.mem with ⟨_ | frame, a, m⟩ <;> rfl

/-- Memory after a new table `frame` was zeroed and linked into its parent. -/
def linkTable (m : Mem) (parent : PhysAddr) (idx : Fin entryCount)
    (frame : PhysAddr) (user : Bool) : Mem :=
  writeEntry (zeroFrame m frame) parent idx (tableEntry frame user)

theorem ensureTable_exec (parent : PhysAddr) (idx : Fin entryCount) (user : Bool)
    (s : Sys A) :
    (ensureTable parent idx user).exec s =
      if present (readEntry s.mem parent idx) then
        (.ok (readEntry s.mem parent idx &&& addrMask), s)
      else
        match allocFrame4k s.ptAlloc s.mem with
        | (none, a, m) => (.error .outOfMemory, { s with ptAlloc := a, mem := m })
        | (some frame, a, m) =>
            (.ok frame,
              { s with ptAlloc := a, mem := linkTable m parent idx frame user }) := by
  rw [ensureTable, MmuM.exec_get_bind, MmuM.exec_ite]
  split
  · rfl
  · rw [MmuM.exec_bind, requestFrame_exec]
    rcases allocFrame4k s.ptAlloc s.mem with ⟨_ | frame, a, m⟩ <;> rfl

/-- Successive `ensure_table` calls along a path of indices. -/
def ensurePath (user : Bool) : PhysAddr → List (Fin entryCount) → MmuM A PhysAddr
  | table, [] => pure table
  | table, i :: path => do
      let child ← ensureTable table i user
      ensurePath user child path

/-- The indices of the three intermediate levels of an address. -/
def tablePath (v : VirtAddr) : List (Fin entryCount) :=
  [pml4Index v, pdptIndex v, pdIndex v]

/-- The end of `map_4k`, once the page table is known. -/
def mapLeaf (vaddr : VirtAddr) (paddr : PhysAddr) (flags : MapFlags)
    (pt : PhysAddr) (s : Sys A) : Except MapError PUnit × Sys A :=
  if present (readEntry s.mem pt (ptIndex vaddr)) then (.error .alreadyMapped, s)
  else
    (.ok ⟨⟩,
      { s with
        mem := writeEntry s.mem pt (ptIndex vaddr) (leafWord s.nxeEnabled paddr flags)
        tlbOps := s.tlbOps ++ [.invlpg vaddr] })

theorem map4k_exec (aspace : AddressSpace) (v : VirtAddr) (p : PhysAddr)
    (flags : MapFlags) (s : Sys A) :
    (map4k aspace v p flags).exec s =
      if !aligned4k v || !aligned4k p then (.error .unaligned, s)
      else if !isCanonical v then (.error .invalidArgs, s)
      else
        match (ensurePath (flags.contains .user) (s.asX86 aspace).pml4Phys
          (tablePath v)).exec s with
        | (.error e, s') => (.error e, s')
        | (.ok pt, s') => mapLeaf v p flags pt s' := by
  simp only [map4k, MmuM.exec_ite, MmuM.exec_throw_bind, MmuM.exec_get_bind]
  split
  · rfl
  · split
    · rfl
    · simp only [tablePath, ensurePath, MmuM.exec_bind]
      -- follow the three tables; an error at any of them ends both sides
      rcases (ensureTable _ (pml4Index v) _).exec s with ⟨_ | pdpt, s1⟩
      · rfl
      · dsimp only
        rcases (ensureTable pdpt _ _).exec s1 with ⟨_ | pd, s2⟩
        · rfl
        · dsimp only
          rcases (ensureTable pd _ _).exec s2 with ⟨_ | pt, s3⟩
          · rfl
          · simp only [mapLeaf, MmuM.exec_pure, MmuM.exec_get, MmuM.exec_ite,
              MmuM.exec_throw, MmuM.exec_bind, MmuM.exec_set, exec_flushTlbPage]
            split <;> rfl

/-- A relation that holds while frames are taken and memory is written holds along
`ensurePath`. -/
theorem ensurePath_keeps {R : Sys A → Sys A → Prop} (refl : ∀ s, R s s)
    (alloc : ∀ {s s' : Sys A} {frame : Option PhysAddr} {al : A} {m : Mem} (mem : Mem),
      allocFrame4k s.ptAlloc s.mem = (frame, al, m) →
      R { s with ptAlloc := al, mem := mem } s' → R s s')
    (user : Bool) (t : PhysAddr) (path : List (Fin entryCount)) (s : Sys A) :
    R s ((ensurePath user t path).exec s).2 := by
  induction path generalizing s t with
  | nil => exact refl s
  | cons i path inductionHypothesis =>
      rw [ensurePath, MmuM.exec_bind, ensureTable_exec]
      by_cases isPresent : present (readEntry s.mem t i) = true
      · rw [if_pos isPresent]
        exact inductionHypothesis _ s
      · rw [if_neg isPresent]
        rcases taken : allocFrame4k s.ptAlloc s.mem with ⟨_ | f, al, m⟩
        · exact alloc m taken (refl _)
        · exact alloc _ taken (inductionHypothesis f
            { s with ptAlloc := al, mem := linkTable m t i f user })

/-- The same along `map_4k`, if the relation does not see the write of the leaf. -/
theorem map4k_keeps {R : Sys A → Sys A → Prop} (refl : ∀ s, R s s)
    (alloc : ∀ {s s' : Sys A} {frame : Option PhysAddr} {al : A} {m : Mem} (mem : Mem),
      allocFrame4k s.ptAlloc s.mem = (frame, al, m) →
      R { s with ptAlloc := al, mem := mem } s' → R s s')
    (write : ∀ {s s' : Sys A} (mem : Mem) (ops : List TlbOp), R s s' →
      R s { s' with mem := mem, tlbOps := ops })
    (aspace : AddressSpace) (v : VirtAddr) (p : PhysAddr) (flags : MapFlags) (s : Sys A) :
    R s ((map4k aspace v p flags).exec s).2 := by
  rw [map4k_exec]
  split
  · exact refl s
  split
  · exact refl s
  have descends := ensurePath_keeps refl alloc (flags.contains .user)
    (s.asX86 aspace).pml4Phys (tablePath v) s
  generalize (ensurePath _ _ (tablePath v)).exec s = outcome at descends
  obtain ⟨e | pt, s₁⟩ := outcome
  · exact descends
  · dsimp only
    rw [mapLeaf]
    split
    · exact descends
    · exact write _ _ descends

/-- The spaces and what runs where are the same. -/
structure SameStatics (k k' : Machine) : Prop where
  kas : k'.kas = k.kas
  kasHandle : k'.kasHandle = k.kasHandle
  asSlots : k'.asSlots = k.asSlots
  currentPerCpu : k'.currentPerCpu = k.currentPerCpu

theorem map4k_statics (aspace : AddressSpace) (v : VirtAddr) (p : PhysAddr)
    (flags : MapFlags) (s : Sys A) :
    SameStatics s.toMachine ((map4k aspace v p flags).exec s).2.toMachine := by
  apply @map4k_keeps A _ fun s s' => SameStatics s.toMachine s'.toMachine
  · exact fun _ => ⟨rfl, rfl, rfl, rfl⟩
  · exact fun _ _ same => ⟨same.kas, same.kasHandle, same.asSlots, same.currentPerCpu⟩
  · exact fun _ _ same => ⟨same.kas, same.kasHandle, same.asSlots, same.currentPerCpu⟩

end

theorem replaceLeaf_exec (aspace : AddressSpace) (v : VirtAddr)
    (update : Bool → Word → Word) (s : Sys A) :
    (replaceLeaf aspace v update : MmuM A PUnit).exec s =
      if !aligned4k v then (.error .unaligned, s)
      else if !isCanonical v then (.error .invalidArgs, s)
      else
        match walkToPt s.mem (s.asX86 aspace).pml4Phys v with
        | none => (.error .notMapped, s)
        | some pt =>
            if !present (readEntry s.mem pt (ptIndex v)) then (.error .notMapped, s)
            else
              (.ok ⟨⟩,
                { s with
                  mem := writeEntry s.mem pt (ptIndex v)
                    (update s.nxeEnabled (readEntry s.mem pt (ptIndex v)))
                  tlbOps := s.tlbOps ++ [.invlpg v] }) := by
  simp only [replaceLeaf, MmuM.exec_ite, MmuM.exec_throw_bind, MmuM.exec_get_bind]
  split
  · rfl
  · split
    · rfl
    · cases walkToPt s.mem (s.asX86 aspace).pml4Phys v with
      | none => rfl
      | some pt =>
          simp only [MmuM.exec_ite, MmuM.exec_throw_bind, MmuM.exec_set_bind,
            exec_flushTlbPage]

/-- `unmap_4k` and `protect_4k` leave the state as it is, or write one word of the page
table they find. -/
theorem replaceLeaf_cases (aspace : AddressSpace) (v : VirtAddr)
    (update : Bool → Word → Word) (s : Sys A) :
    ((replaceLeaf aspace v update : MmuM A PUnit).exec s).2 = s ∨
      ∃ pt w, walkToPt s.mem (s.asX86 aspace).pml4Phys v = some pt ∧
        ((replaceLeaf aspace v update : MmuM A PUnit).exec s).2 =
          { s with
            mem := writeEntry s.mem pt (ptIndex v) w
            tlbOps := s.tlbOps ++ [.invlpg v] } := by
  rw [replaceLeaf_exec]
  split
  · exact Or.inl rfl
  split
  · exact Or.inl rfl
  cases found : walkToPt s.mem (s.asX86 aspace).pml4Phys v with
  | none => exact Or.inl rfl
  | some pt =>
      dsimp only
      split
      · exact Or.inl rfl
      · exact Or.inr ⟨pt, _, rfl, rfl⟩

theorem replaceLeaf_ptAlloc (aspace : AddressSpace) (v : VirtAddr)
    (update : Bool → Word → Word) (s : Sys A) :
    ((replaceLeaf aspace v update : MmuM A PUnit).exec s).2.ptAlloc = s.ptAlloc := by
  rcases replaceLeaf_cases aspace v update s with same | ⟨pt, w, -, written⟩
  · rw [same]
  · rw [written]

theorem replaceLeaf_statics (aspace : AddressSpace) (v : VirtAddr)
    (update : Bool → Word → Word) (s : Sys A) :
    SameStatics s.toMachine
      ((replaceLeaf aspace v update : MmuM A PUnit).exec s).2.toMachine := by
  rcases replaceLeaf_cases aspace v update s with same | ⟨pt, w, -, written⟩
  · rw [same]
    exact ⟨rfl, rfl, rfl, rfl⟩
  · rw [written]
    exact ⟨rfl, rfl, rfl, rfl⟩

/-! ### Address spaces -/

/-- `init_kernel` succeeds with the kernel handle known from then on, or fails
without effect. -/
theorem initKernel_cases (cpu : Cpu) (s : Sys A) :
    (∃ h, s.kasHandle = some h ∧ (initKernel cpu).exec s = (.ok h, s)) ∨
      (s.kasHandle = none ∧ cpu.cr3 &&& addrMask = 0 ∧
        (initKernel cpu).exec s = (.error .invalidArgs, s)) ∨
      (s.kasHandle = none ∧ cpu.cr3 &&& addrMask ≠ 0 ∧
        (initKernel cpu).exec s =
          (.ok .kas,
            { s with
              kas := some ⟨cpu.cr3 &&& addrMask⟩
              kasHandle := some .kas
              currentPerCpu :=
                Function.update s.currentPerCpu cpu.index (some .kas) })) := by
  rw [initKernel, MmuM.exec_get_bind]
  cases s.kasHandle with
  | some h => exact Or.inl ⟨h, rfl, rfl⟩
  | none =>
      right
      by_cases zero : cpu.cr3 &&& addrMask = 0
      · exact Or.inl ⟨rfl, zero, by simp [zero]⟩
      · exact Or.inr ⟨rfl, zero, by simpa using zero⟩

/-- `after` is `before` with at most the kernel address space adopted. -/
structure Adopts (before after : Sys A) : Prop where
  mem : after.mem = before.mem
  ptAlloc : after.ptAlloc = before.ptAlloc
  asSlots : after.asSlots = before.asSlots
  nxeEnabled : after.nxeEnabled = before.nxeEnabled
  tlbOps : after.tlbOps = before.tlbOps
  handle : after.kasHandle = before.kasHandle ∨ after.kasHandle = some .kas
  once : before.kasHandle ≠ none → after = before

theorem Adopts.trans {s s₁ s₂ : Sys A} (one : Adopts s s₁) (two : Adopts s₁ s₂) :
    Adopts s s₂ where
  mem := two.mem.trans one.mem
  ptAlloc := two.ptAlloc.trans one.ptAlloc
  asSlots := two.asSlots.trans one.asSlots
  nxeEnabled := two.nxeEnabled.trans one.nxeEnabled
  tlbOps := two.tlbOps.trans one.tlbOps
  handle := by
    rcases two.handle with same | new
    · rw [same]
      exact one.handle
    · exact Or.inr new
  once known := by
    obtain rfl := one.once known
    exact two.once known

theorem initKernel_adopts (cpu : Cpu) (s : Sys A) :
    Adopts s ((initKernel cpu).exec s).2 := by
  rcases initKernel_cases cpu s with ⟨h, _, done⟩ | ⟨none, _, done⟩ | ⟨none, _, done⟩
  · rw [done]
    exact ⟨rfl, rfl, rfl, rfl, rfl, Or.inl rfl, fun _ => rfl⟩
  · rw [done]
    exact ⟨rfl, rfl, rfl, rfl, rfl, Or.inl rfl, fun known => absurd none known⟩
  · rw [done]
    exact ⟨rfl, rfl, rfl, rfl, rfl, Or.inr rfl, fun known => absurd none known⟩

theorem initKernel_error (cpu : Cpu) (s : Sys A) (e : MapError)
    (failed : ((initKernel cpu).exec s).1 = .error e) : e = .invalidArgs := by
  rcases initKernel_cases cpu s with ⟨h, _, done⟩ | ⟨_, _, done⟩ | ⟨_, _, done⟩
  all_goals
    rw [done] at failed
    cases failed
  rfl

/-- The slot `alloc_slot` fills. -/
def newSlot (i : Fin maxAddressSpaces) (pml4Phys : PhysAddr) : AddressSpaceSlot :=
  { used := true, space := ⟨pml4Phys⟩, handle := some (.slot i) }

theorem allocSlot_cases (pml4Phys : PhysAddr) (s : Sys A) :
    ((∀ i, (s.asSlots i).used = true) ∧
        (allocSlot pml4Phys).exec s = (.error .outOfMemory, s)) ∨
      ∃ i, (s.asSlots i).used = false ∧
        (allocSlot pml4Phys).exec s =
          (.ok (.slot i),
            { s with asSlots := Function.update s.asSlots i (newSlot i pml4Phys) }) := by
  rw [allocSlot, MmuM.exec_get_bind]
  cases found : (List.finRange maxAddressSpaces).find? fun i => !(s.asSlots i).used with
  | none =>
      left
      refine ⟨fun i => ?_, rfl⟩
      have full := List.find?_eq_none.mp found i (List.mem_finRange i)
      simpa using full
  | some i =>
      right
      have free := List.find?_some found
      exact ⟨i, by simpa using free, rfl⟩

section

variable [PageTableFrameAlloc A]

/-- Memory after the PML4 of a new address space was filled. -/
def newRootMem (m : Mem) (kernelRoot pml4 : PhysAddr) : Mem :=
  copyEntries (zeroFrame m pml4) kernelRoot pml4 kernelPml4Start

/-- The three ways `newFromKernel` can end.  When all slots are in use the frame
stays allocated and filled although no address space owns it. -/
theorem newFromKernel_cases (kernelRoot : PhysAddr) (s : Sys A) :
    (∃ a m, allocFrame4k s.ptAlloc s.mem = (none, a, m) ∧
        (newFromKernel kernelRoot).exec s =
          (.error .outOfMemory, { s with ptAlloc := a, mem := m })) ∨
      ∃ f a m, allocFrame4k s.ptAlloc s.mem = (some f, a, m) ∧
        (((∀ i, (s.asSlots i).used = true) ∧
            (newFromKernel kernelRoot).exec s =
              (.error .outOfMemory,
                { s with ptAlloc := a, mem := newRootMem m kernelRoot f })) ∨
          ∃ i, (s.asSlots i).used = false ∧
            (newFromKernel kernelRoot).exec s =
              (.ok (.slot i),
                { s with
                  ptAlloc := a
                  mem := newRootMem m kernelRoot f
                  asSlots := Function.update s.asSlots i (newSlot i f) })) := by
  rw [newFromKernel, MmuM.exec_bind, requestFrame_exec]
  rcases allocFrame4k s.ptAlloc s.mem with ⟨_ | f, a, m⟩
  · exact Or.inl ⟨a, m, rfl, rfl⟩
  · right
    refine ⟨f, a, m, rfl, ?_⟩
    simp only [MmuM.exec_modify_bind]
    rcases allocSlot_cases f
        { s with ptAlloc := a, mem := newRootMem m kernelRoot f } with
      ⟨full, done⟩ | ⟨i, free, done⟩
    · exact Or.inl ⟨full, done⟩
    · exact Or.inr ⟨i, free, done⟩

/-- `address_space_new` without a kernel root changes no memory; with one it
goes on as `newFromKernel`. -/
theorem addressSpaceNew_cases (cpu : Cpu) (s : Sys A) :
    ∃ s0, Adopts s s0 ∧
      ((addressSpaceNew cpu).exec s = (.error .invalidArgs, s0) ∨
        ∃ kernel, s0.kas = some kernel ∧
          (addressSpaceNew cpu).exec s = (newFromKernel kernel.pml4Phys).exec s0) := by
  refine ⟨((initKernel cpu).exec s).2, initKernel_adopts cpu s, ?_⟩
  rw [addressSpaceNew, MmuM.exec_bind]
  rcases started : (initKernel cpu).exec s with ⟨outcome, s0⟩
  cases outcome with
  | error e =>
      have refused := initKernel_error cpu s e (by rw [started])
      exact Or.inl (by rw [refused])
  | ok h =>
      dsimp only
      rw [MmuM.exec_get_bind]
      cases s0.kas with
      | none => exact Or.inl rfl
      | some kernel => exact Or.inr ⟨kernel, rfl, rfl⟩

/-- Once the kernel is adopted `init_kernel` has nothing to do. -/
theorem addressSpaceNew_adopted (cpu : Cpu) {s : Sys A} {h : AddressSpace}
    {kernel : X86AddressSpace} (handle : s.kasHandle = some h)
    (adopted : s.kas = some kernel) :
    (addressSpaceNew cpu).exec s = (newFromKernel kernel.pml4Phys).exec s := by
  have started : (initKernel cpu).exec s = (.ok h, s) := by
    rw [initKernel, MmuM.exec_get_bind, handle]
    rfl
  rw [addressSpaceNew, MmuM.exec_bind_ok started, MmuM.exec_get_bind, adopted]

end

end RincOs
