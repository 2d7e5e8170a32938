/-
Module: RincOs.Proofs.SlotTable
Purpose: The slot table over whole runs of creation and destruction.  Used slots
  and live handles correspond, and a live handle resolves to the frame it was
  created with, whatever happened to the other slots since.
Trusted boundary: none
Main exports:
  SlotRun, SlotTable, slotTable_of_run
-/
import RincOs.Proofs.BumpAlloc
import RincOs.Proofs.Runs

namespace RincOs

variable {A : Type}

section

variable [PageTableFrameAlloc A]

/-! ### Runs of creation and destruction -/

/-- Calls of `address_space_new` and `address_space_destroy` in any order, where
a destroyed handle is live or the kernel's.  The list holds the live handles,
each with what `alloc_frame_4k` answered when it was created. -/
inductive SlotRun (start : Sys A) : List (AddressSpace × Option PhysAddr) → Sys A → Prop where
  | start : SlotRun start [] start
  | created {live : List (AddressSpace × Option PhysAddr)} {s s' : Sys A} {cpu : Cpu}
      {aspace : AddressSpace} (before : SlotRun start live s)
      (done : (addressSpaceNew cpu).exec s = (.ok aspace, s')) :
      SlotRun start ((aspace, (allocFrame4k s.ptAlloc s.mem).1) :: live) s'
  | refused {live : List (AddressSpace × Option PhysAddr)} {s s' : Sys A} {cpu : Cpu}
      {e : MapError} (before : SlotRun start live s)
      (done : (addressSpaceNew cpu).exec s = (.error e, s')) : SlotRun start live s'
  | destroyed {live : List (AddressSpace × Option PhysAddr)} {s : Sys A}
      {aspace : AddressSpace} (before : SlotRun start live s)
      (alive : aspace ∈ live.map Prod.fst) :
      SlotRun start (live.filter (·.1 ≠ aspace)) (addressSpaceDestroy aspace s)
  | kernelKept {live : List (AddressSpace × Option PhysAddr)} {s : Sys A}
      {aspace : AddressSpace} (before : SlotRun start live s)
      (kernel : s.kasHandle = some aspace) :
      SlotRun start live (addressSpaceDestroy aspace s)

/-- What the slot table guarantees to the holders of the live handles. -/
structure SlotTable (live : List (AddressSpace × Option PhysAddr)) (s : Sys A) : Prop where
  distinct : (live.map Prod.fst).Nodup
  notKernel : ∀ aspace ∈ live.map Prod.fst, s.kasHandle ≠ some aspace
  slotOf : ∀ aspace ∈ live.map Prod.fst,
    ∃! i, Used s.toMachine i ∧ (s.asSlots i).handle = some aspace
  handleOf : ∀ i, Used s.toMachine i →
    ∃ aspace ∈ live.map Prod.fst, (s.asSlots i).handle = some aspace
  resolves : ∀ aspace frame, (aspace, frame) ∈ live →
    frame = some (s.asX86 aspace).pml4Phys
  newSucceeds : ∀ cpu, ((addressSpaceNew cpu).exec s).1.isOk = true ↔
    live.length < maxAddressSpaces ∧ (allocFrame4k s.ptAlloc s.mem).1.isSome = true
  kernelKept : ∀ aspace, s.kasHandle = some aspace → addressSpaceDestroy aspace s = s

end

/-! ### The invariant -/

/-- The live handles are those of the used slots, and each slot holds the frame
of its handle. -/
structure SlotInv (live : List (AddressSpace × Option PhysAddr)) (s : Sys A) : Prop where
  handles : HandlesOk s.toMachine
  kernel : s.kasHandle = some .kas
  adopted : ∃ root, s.kas = some root
  distinct : (live.map Prod.fst).Nodup
  alive : ∀ aspace, aspace ∈ live.map Prod.fst ↔ ∃ i, aspace = .slot i ∧ Used s.toMachine i
  resolves : ∀ aspace frame, (aspace, frame) ∈ live →
    frame = some (s.asX86 aspace).pml4Phys

section

variable {live : List (AddressSpace × Option PhysAddr)} {s s' : Sys A}

/-- Only the slots and the kernel's handle and root matter. -/
theorem SlotInv.congr (inv : SlotInv live s) (slots : s'.asSlots = s.asSlots)
    (handle : s'.kasHandle = s.kasHandle) (kas : s'.kas = s.kas) : SlotInv live s' where
  handles := inv.handles.of_slots slots (Or.inl handle)
  kernel := handle.trans inv.kernel
  adopted := by
    rw [kas]
    exact inv.adopted
  distinct := inv.distinct
  alive := by
    rw [used_congr slots]
    exact inv.alive
  resolves aspace frame listed := by
    have root : s'.asX86 aspace = s.asX86 aspace := by
      cases aspace with
      | kas => rw [Machine.asX86, kas]; rfl
      | slot i => rw [Machine.asX86, slots]; rfl
    rw [root]
    exact inv.resolves aspace frame listed

/-- A slot that was free takes the new handle. -/
theorem SlotInv.fill {i : Fin maxAddressSpaces} {f : PhysAddr} (inv : SlotInv live s)
    (free : (s.asSlots i).used = false)
    (slots : s'.asSlots = Function.update s.asSlots i (newSlot i f))
    (handle : s'.kasHandle = s.kasHandle) (kas : s'.kas = s.kas) :
    SlotInv ((.slot i, some f) :: live) s' := by
  have used := used_newSlot slots
  have fresh : AddressSpace.slot i ∉ live.map Prod.fst := by
    intro listed
    obtain ⟨b, same, inUse⟩ := (inv.alive _).mp listed
    obtain rfl := AddressSpace.slot.inj same
    rw [Used, free] at inUse
    cases inUse
  refine ⟨⟨fun {b} inUse => ?_, ?_⟩, handle.trans inv.kernel, ?_,
    List.nodup_cons.mpr ⟨fresh, inv.distinct⟩, fun aspace => ?_, fun aspace frame listed => ?_⟩
  · rw [slots, Function.update_apply] at inUse ⊢
    by_cases same : b = i
    · rw [if_pos same, same]
      rfl
    · rw [if_neg same] at inUse ⊢
      exact inv.handles.slot inUse
  · rw [handle]
    exact inv.handles.kernel
  · rw [kas]
    exact inv.adopted
  · rw [List.map_cons, List.mem_cons, inv.alive]
    simp only [used]
    constructor
    · rintro (rfl | ⟨b, rfl, inUse⟩)
      · exact ⟨i, rfl, Or.inr rfl⟩
      · exact ⟨b, rfl, Or.inl inUse⟩
    · rintro ⟨b, rfl, inUse | rfl⟩
      · exact Or.inr ⟨b, rfl, inUse⟩
      · exact Or.inl rfl
  · rcases List.mem_cons.mp listed with new | old
    · obtain ⟨rfl, rfl⟩ := Prod.mk.inj new
      rw [Machine.asX86, slots, Function.update_self]
      rfl
    · obtain ⟨b, rfl, -⟩ := (inv.alive aspace).mp (List.mem_map_of_mem old)
      have other : b ≠ i := by
        rintro rfl
        exact fresh (List.mem_map_of_mem old)
      rw [Machine.asX86, slots, Function.update_of_ne other]
      exact inv.resolves _ _ old

/-- There are as many live handles as used slots. -/
theorem SlotInv.length_lt_iff (inv : SlotInv live s) :
    live.length < maxAddressSpaces ↔ ∃ i, ¬ Used s.toMachine i := by
  let used := (List.finRange maxAddressSpaces).filter fun i => (s.asSlots i).used
  have same : (live.map Prod.fst).Perm (used.map AddressSpace.slot) := by
    refine (List.perm_ext_iff_of_nodup inv.distinct ?_).mpr fun aspace => ?_
    · exact ((List.nodup_finRange _).filter _).map fun i j => AddressSpace.slot.inj
    · rw [inv.alive]
      simp only [used, List.mem_map, List.mem_filter, List.mem_finRange, true_and, Used]
      constructor
      · rintro ⟨i, rfl, inUse⟩
        exact ⟨i, inUse, rfl⟩
      · rintro ⟨i, inUse, rfl⟩
        exact ⟨i, rfl, inUse⟩
  have count : live.length = used.length := by simpa using same.length_eq
  have some : used.length < (List.finRange maxAddressSpaces).length ↔
      ∃ i, ¬ Used s.toMachine i := by
    rw [List.length_filter_lt_length_iff_exists]
    simp [Used]
  rw [count, ← some, List.length_finRange]

variable [PageTableFrameAlloc A]

theorem addressSpaceDestroy_slots {i : Fin maxAddressSpaces} (handles : HandlesOk s.toMachine)
    (used : Used s.toMachine i) :
    (addressSpaceDestroy (.slot i) s).asSlots = Function.update s.asSlots i
        { s.asSlots i with used := false, space := ⟨0⟩ } ∧
      (addressSpaceDestroy (.slot i) s).kasHandle = s.kasHandle ∧
      (addressSpaceDestroy (.slot i) s).kas = s.kas := by
  rw [addressSpaceDestroy, if_neg (by simpa using handles.kernel i), freeSlot_eq handles used]
  exact ⟨rfl, rfl, rfl⟩

/-- The slot of a destroyed handle is released, the others stay. -/
theorem SlotInv.destroy {aspace : AddressSpace} (inv : SlotInv live s)
    (listed : aspace ∈ live.map Prod.fst) :
    SlotInv (live.filter (·.1 ≠ aspace)) (addressSpaceDestroy aspace s) := by
  obtain ⟨i, rfl, used⟩ := (inv.alive aspace).mp listed
  obtain ⟨slots, handle, kas⟩ := addressSpaceDestroy_slots inv.handles used
  generalize addressSpaceDestroy (.slot i) s = after at slots handle kas
  have stillUsed : ∀ b, Used after.toMachine b ↔ Used s.toMachine b ∧ b ≠ i := by
    intro b
    rw [Used, Used, slots, Function.update_apply]
    by_cases same : b = i <;> simp [same]
  have left : ∀ other, other ∈ (live.filter (·.1 ≠ .slot i)).map Prod.fst ↔
      other ∈ live.map Prod.fst ∧ other ≠ .slot i := by
    intro other
    simp only [List.mem_map, List.mem_filter, decide_eq_true_eq]
    constructor
    · rintro ⟨pair, ⟨inside, differs⟩, rfl⟩
      exact ⟨⟨pair, inside, rfl⟩, differs⟩
    · rintro ⟨⟨pair, inside, rfl⟩, differs⟩
      exact ⟨pair, ⟨inside, differs⟩, rfl⟩
  refine ⟨⟨fun {b} inUse => ?_, ?_⟩, handle.trans inv.kernel, ?_, ?_, fun other => ?_,
    fun other frame kept => ?_⟩
  · have before := (stillUsed b).mp inUse
    rw [slots, Function.update_of_ne before.2]
    exact inv.handles.slot before.1
  · rw [handle]
    exact inv.handles.kernel
  · rw [kas]
    exact inv.adopted
  · exact inv.distinct.sublist (List.filter_sublist.map Prod.fst)
  · rw [left, inv.alive]
    simp only [stillUsed]
    constructor
    · rintro ⟨⟨b, rfl, inUse⟩, differs⟩
      exact ⟨b, rfl, inUse, fun same => differs (congrArg _ same)⟩
    · rintro ⟨b, rfl, inUse, differs⟩
      exact ⟨⟨b, rfl, inUse⟩, fun same => differs (AddressSpace.slot.inj same)⟩
  · obtain ⟨inside, differs⟩ := List.mem_filter.mp kept
    obtain ⟨b, rfl, -⟩ := (inv.alive other).mp (List.mem_map_of_mem inside)
    have apart : b ≠ i := by
      rintro rfl
      simp at differs
    rw [Machine.asX86, slots, Function.update_of_ne apart]
    exact inv.resolves _ _ inside

/-- What `address_space_new` does to the table. -/
inductive NewSlot (live : List (AddressSpace × Option PhysAddr)) (s : Sys A) :
    Except MapError AddressSpace × Sys A → Prop where
  | noFrame {s' : Sys A} (none : (allocFrame4k s.ptAlloc s.mem).1 = none)
      (inv : SlotInv live s') : NewSlot live s (.error .outOfMemory, s')
  | noSlot {s' : Sys A} (full : ∀ i, Used s.toMachine i) (inv : SlotInv live s') :
      NewSlot live s (.error .outOfMemory, s')
  | ok {s' : Sys A} {i : Fin maxAddressSpaces} {f : PhysAddr}
      (frame : (allocFrame4k s.ptAlloc s.mem).1 = some f) (free : ¬ Used s.toMachine i)
      (inv : SlotInv ((.slot i, some f) :: live) s') : NewSlot live s (.ok (.slot i), s')

theorem SlotInv.new (inv : SlotInv live s) (cpu : Cpu) :
    NewSlot live s ((addressSpaceNew cpu).exec s) := by
  obtain ⟨kernel, adopted⟩ := inv.adopted
  rw [addressSpaceNew_adopted cpu inv.kernel adopted]
  rcases newFromKernel_cases kernel.pml4Phys s with
    ⟨a, m, alloc, done⟩ | ⟨f, a, m, alloc, ⟨full, done⟩ | ⟨i, free, done⟩⟩
  · rw [done]
    exact .noFrame (by rw [alloc]) (inv.congr rfl rfl rfl)
  · rw [done]
    exact .noSlot full (inv.congr rfl rfl rfl)
  · rw [done]
    exact .ok (by rw [alloc]) (by simp [Used, free]) (inv.fill free rfl rfl rfl)

theorem SlotInv.slotTable (inv : SlotInv live s) : SlotTable live s where
  distinct := inv.distinct
  notKernel aspace listed known := by
    obtain ⟨i, rfl, -⟩ := (inv.alive aspace).mp listed
    exact inv.handles.kernel i known
  slotOf aspace listed := by
    obtain ⟨i, rfl, used⟩ := (inv.alive aspace).mp listed
    refine ⟨i, ⟨used, inv.handles.slot used⟩, fun j ⟨inUse, points⟩ => ?_⟩
    rw [inv.handles.slot inUse] at points
    exact AddressSpace.slot.inj (Option.some.inj points)
  handleOf i used := ⟨.slot i, (inv.alive _).mpr ⟨i, rfl, used⟩, inv.handles.slot used⟩
  resolves := inv.resolves
  newSucceeds cpu := by
    have ends := inv.new cpu
    rw [inv.length_lt_iff]
    generalize (addressSpaceNew cpu).exec s = outcome at ends
    cases ends with
    | noFrame none => simp [none, Except.isOk, Except.toBool]
    | noSlot full => simp [full, Except.isOk, Except.toBool]
    | ok frame free => exact iff_of_true rfl ⟨⟨_, free⟩, by rw [frame]; rfl⟩
  kernelKept aspace known := by rw [addressSpaceDestroy, known]; simp

/-- The invariant holds along every run. -/
theorem SlotRun.inv {start : Sys A} (run : SlotRun start live s) (initial : SlotInv [] start) :
    SlotInv live s := by
  induction run with
  | start => exact initial
  | @created live s s' cpu aspace _ done inductionHypothesis =>
      have ends := inductionHypothesis.new cpu
      rw [done] at ends
      cases ends with
      | ok frame free inv =>
          rw [frame]
          exact inv
  | @refused live s s' cpu e _ done inductionHypothesis =>
      have ends := inductionHypothesis.new cpu
      rw [done] at ends
      cases ends with
      | noFrame _ inv => exact inv
      | noSlot _ inv => exact inv
  | destroyed _ alive inductionHypothesis => exact inductionHypothesis.destroy alive
  | kernelKept _ kernel inductionHypothesis =>
      rw [inductionHypothesis.slotTable.kernelKept _ kernel]
      exact inductionHypothesis

end

/-- After `init_kernel` the slot table is right in every state a run of creation
and destruction reaches. -/
theorem slotTable_of_run [PageTableFrameAlloc A] {mem : Mem} {alloc : A} {cpu : Cpu}
    {h : AddressSpace} {start s : Sys A} {live : List (AddressSpace × Option PhysAddr)}
    (booted : (initKernel cpu).exec { Machine.boot mem with ptAlloc := alloc } = (.ok h, start))
    (run : SlotRun start live s) : SlotTable live s := by
  have initial : SlotInv [] start := by
    rcases initKernel_cases cpu { Machine.boot mem with ptAlloc := alloc } with
      ⟨known, already, -⟩ | ⟨-, -, done⟩ | ⟨-, -, done⟩
    · cases already
    · rw [done] at booted
      cases booted
    · rw [done] at booted
      obtain ⟨-, rfl⟩ := Prod.mk.inj booted
      refine ⟨⟨fun {i} used => ?_, fun i => by simp⟩, rfl, ⟨_, rfl⟩, List.nodup_nil,
        fun aspace => ?_, by simp⟩
      · simp [Machine.boot, emptySlot] at used
      · simp [Used, Machine.boot, emptySlot]
  exact (run.inv initial).slotTable

/-- The kernel's tables adopted, then two spaces created, then the slot of the
first used again. -/
def slotStart : Sys (Recorded BumpAlloc) := ((initKernel bootCpu).exec (bootSys fun _ => 0)).2

def firstSpace : Sys (Recorded BumpAlloc) := ((addressSpaceNew bootCpu).exec slotStart).2

def secondSpace : Sys (Recorded BumpAlloc) := ((addressSpaceNew bootCpu).exec firstSpace).2

def releasedSlot : Sys (Recorded BumpAlloc) :=
  addressSpaceDestroy (.slot ⟨0, by decide⟩) secondSpace

def reusedSlot : Sys (Recorded BumpAlloc) := ((addressSpaceNew bootCpu).exec releasedSlot).2

theorem slotTable_reusedSlot :
    SlotTable [(.slot 0, some 0x3000), (.slot 1, some 0x2000)] reusedSlot := by
  have first : SlotRun slotStart [(.slot 0, some 0x1000)] firstSpace :=
    .created .start (show (addressSpaceNew bootCpu).exec slotStart = _ from rfl)
  have second : SlotRun slotStart [(.slot 1, some 0x2000), (.slot 0, some 0x1000)] secondSpace :=
    .created first (show (addressSpaceNew bootCpu).exec firstSpace = _ from rfl)
  have released : SlotRun slotStart [(.slot 1, some 0x2000)] releasedSlot :=
    .destroyed second (show AddressSpace.slot 0 ∈ _ by decide)
  have done : (addressSpaceNew bootCpu).exec releasedSlot = (.ok (.slot 0), reusedSlot) :=
    Prod.ext (by decide +kernel) (by rw [reusedSlot])
  have frame : (allocFrame4k releasedSlot.ptAlloc releasedSlot.mem).1 = some 0x3000 := by
    decide +kernel
  have reused := released.created done
  rw [frame] at reused
  exact slotTable_of_run
    (show (initKernel bootCpu).exec (bootSys fun _ => 0) = (.ok .kas, slotStart) from rfl) reused

end RincOs
