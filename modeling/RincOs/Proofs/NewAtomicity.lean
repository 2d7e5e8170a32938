/-
Module: RincOs.Proofs.NewAtomicity
Purpose: What a failed `address_space_new` leaves behind.  It takes a frame before it
  looks for a slot, and adopts the kernel tables before either: with all slots in
  use it loses the frame, and without a frame it may have adopted the kernel.
Trusted boundary: the memory map is not overwritten while the allocator runs
Main exports:
  BootPtAlloc.gives, BootPtAlloc.available, available_eq_count, BackendRun,
  LiveHandle, NewAtomic, newAtomic_iff, full_table_loses_frame
-/
import Mathlib.Data.Set.Card
import RincOs.Proofs.FrameConservation
import RincOs.Proofs.KernelRoot

namespace RincOs

/-! ### The frames an allocator still has -/

/-- What call `n` of `alloc_frame_4k` answers from here on, counted from 0. -/
def BootPtAlloc.gives (view : Nat → MemMapEntry) : Nat → BootPtAlloc → Option PhysAddr
  | 0, self => (self.takeFrame view).1
  | n + 1, self => gives view n (self.takeFrame view).2

/-- How often a frame is available: the multiset of the frames still to be given.  A
cursor that wraps around gives a frame without end. -/
noncomputable def BootPtAlloc.available (view : Nat → MemMapEntry) (self : BootPtAlloc)
    (f : PhysAddr) : ENat :=
  Set.encard {n | self.gives view n = some f}

/-- The first answer counts once, the others count later. -/
theorem encard_answers {α : Type*} [DecidableEq α] (answers : Nat → Option α) (a : α) :
    Set.encard {n | answers n = some a} =
      Set.encard {n | answers (n + 1) = some a} + if answers 0 = some a then 1 else 0 := by
  have later : Set.encard (Nat.succ '' {n | answers (n + 1) = some a}) =
      Set.encard {n | answers (n + 1) = some a} :=
    Nat.succ_injective.encard_image _
  by_cases first : answers 0 = some a
  · have split : {n | answers n = some a} =
        insert 0 (Nat.succ '' {n | answers (n + 1) = some a}) := by
      ext n
      cases n <;> simp [first]
    rw [if_pos first, split, Set.encard_insert_of_notMem (by simp), later]
  · have split : {n | answers n = some a} = Nat.succ '' {n | answers (n + 1) = some a} := by
      ext n
      cases n <;> simp [first]
    rw [if_neg first, split, later, add_zero]

section

variable {view : Nat → MemMapEntry} {alloc after : BootPtAlloc}

theorem available_takeFrame {answer : Option PhysAddr}
    (taken : alloc.takeFrame view = (answer, after)) (f : PhysAddr) :
    alloc.available view f = after.available view f + if answer = some f then 1 else 0 := by
  have counted := encard_answers (fun n => alloc.gives view n) f
  simp only [BootPtAlloc.gives, taken] at counted
  exact counted

/-- Asking for a frame in vain takes nothing away. -/
theorem available_none (taken : alloc.takeFrame view = (none, after)) (f : PhysAddr) :
    after.available view f = alloc.available view f := by
  rw [available_takeFrame taken f]
  simp

theorem gives_eq_pool (inRange : InRange view alloc) (n : Nat) :
    alloc.gives view n = (alloc.pool view)[n]? := by
  induction n generalizing alloc with
  | zero =>
      rcases done : alloc.takeFrame view with ⟨answer, after⟩
      rw [BootPtAlloc.gives, done, (takeFrame_takesTop inRange done).answer,
        List.head?_eq_getElem?]
  | succ n inductionHypothesis =>
      rcases done : alloc.takeFrame view with ⟨answer, after⟩
      have taken := takeFrame_takesTop inRange done
      rw [BootPtAlloc.gives, done, inductionHypothesis taken.inRange, taken.pool,
        List.getElem?_tail]

/-- In a map in range these are the free list and the pages ahead of the cursor. -/
theorem available_eq_count (inRange : InRange view alloc) (f : PhysAddr) :
    alloc.available view f = (alloc.pool view).count f := by
  simp only [BootPtAlloc.available, gives_eq_pool inRange]
  induction alloc.pool view with
  | nil => simp
  | cons top rest inductionHypothesis =>
      rw [encard_answers (fun n => (top :: rest)[n]?) f]
      simp only [List.getElem?_cons_succ, List.getElem?_cons_zero, inductionHypothesis,
        List.count_cons]
      by_cases same : top = f <;> simp [same]

end

/-- The boot allocator over a memory map. -/
structure ViewAlloc (view : Nat → MemMapEntry) where
  alloc : BootPtAlloc

instance (view : Nat → MemMapEntry) : PageTableFrameAlloc (ViewAlloc view) where
  allocFrame4k a m :=
    let (frame, after, m') := a.alloc.allocFrame4k view m
    (frame, ⟨after⟩, m')
  freeFrame4k a paddr := ⟨a.alloc.freeFrame4k paddr⟩

theorem viewAlloc_cases {view : Nat → MemMapEntry} {a a' : ViewAlloc view} {m m' : Mem}
    {frame : Option PhysAddr} (done : allocFrame4k a m = (frame, a', m')) :
    a.alloc.takeFrame view = (frame, a'.alloc) ∧ m' = frame.elim m (zeroFrame m) := by
  obtain ⟨after, rfl, taken⟩ := allocFrame4k_wrapped done
  exact taken

/-! ### Reachable states -/

section

variable {A : Type} [PageTableFrameAlloc A]

/-- Everything that changes the statics of the backend, on any handles and in any order.
Memory may be written in between. -/
inductive BackendRun (start : Sys A) : Sys A → Prop where
  | start : BackendRun start start
  | init {s : Sys A} (cpu : Cpu) (before : BackendRun start s) :
      BackendRun start ((initKernel cpu).exec s).2
  | call {s : Sys A} (call : Call) (before : BackendRun start s) :
      BackendRun start (call.exec s).2
  | activate {s : Sys A} (index : Fin maxCpus) (aspace : AddressSpace)
      (before : BackendRun start s) :
      BackendRun start { s with toMachine := (s.toMachine.activate index aspace).2 }
  | features {s : Sys A} (nxe : Bool) (before : BackendRun start s) :
      BackendRun start { s with nxeEnabled := nxe }
  | written {s : Sys A} (mem : Mem) (before : BackendRun start s) :
      BackendRun start { s with mem := mem }

/-- The kernel space is known before any other exists. -/
def KernelFirst (k : Machine) : Prop :=
  (∃ root, KernelAt root k) ∨ k.kasHandle = none ∧ ∀ a, ¬ Used k a

theorem KernelFirst.congr {k k' : Machine} (first : KernelFirst k) (kas : k'.kas = k.kas)
    (handle : k'.kasHandle = k.kasHandle) (used : ∀ a, Used k' a → Used k a) :
    KernelFirst k' := by
  rcases first with ⟨root, known, adopted⟩ | ⟨unknown, unused⟩
  · exact .inl ⟨root, handle.trans known, kas.trans adopted⟩
  · exact .inr ⟨handle.trans unknown, fun a inUse => unused a (used a inUse)⟩

/-- The state in which `init_kernel` has adopted the tables of this CPU. -/
def adoptKernel (cpu : Cpu) (s : Sys A) : Sys A :=
  { s with
    kas := some ⟨cpu.cr3 &&& addrMask⟩
    kasHandle := some .kas
    currentPerCpu := Function.update s.currentPerCpu cpu.index (some .kas) }

/-- The three ways `address_space_new` goes: it is refused without a kernel root, or goes on
with the one it has, or with the one it adopts. -/
theorem addressSpaceNew_roots (cpu : Cpu) (s : Sys A) :
    (s.kasHandle = none → cpu.cr3 &&& addrMask = 0) ∧
        (addressSpaceNew cpu).exec s = (.error .invalidArgs, s) ∨
      (∃ root, s.kasHandle ≠ none ∧
        (addressSpaceNew cpu).exec s = (newFromKernel root).exec s) ∨
      (s.kasHandle = none ∧ cpu.cr3 &&& addrMask ≠ 0 ∧
        (addressSpaceNew cpu).exec s =
          (newFromKernel (cpu.cr3 &&& addrMask)).exec (adoptKernel cpu s)) := by
  rcases initKernel_cases cpu s with ⟨h, known, done⟩ | ⟨-, zero, done⟩ | ⟨unknown, nonzero, done⟩
  · rw [addressSpaceNew, MmuM.exec_bind_ok done, MmuM.exec_get_bind, known]
    cases s.kas with
    | none => exact .inl ⟨fun unknown => absurd unknown (Option.some_ne_none h), rfl⟩
    | some kernel => exact .inr (.inl ⟨kernel.pml4Phys, Option.some_ne_none h, rfl⟩)
  · rw [addressSpaceNew, MmuM.exec_bind_error done]
    exact .inl ⟨fun _ => zero, rfl⟩
  · refine .inr (.inr ⟨unknown, nonzero, ?_⟩)
    rw [addressSpaceNew, MmuM.exec_bind_ok done, MmuM.exec_get_bind]
    rfl

theorem newFromKernel_keepsKernel (root : PhysAddr) (s : Sys A) :
    ((newFromKernel root).exec s).2.kas = s.kas ∧
      ((newFromKernel root).exec s).2.kasHandle = s.kasHandle := by
  rcases newFromKernel_cases root s with
    ⟨a, m, -, done⟩ | ⟨f, a, m, -, ⟨-, done⟩ | ⟨i, -, done⟩⟩
  all_goals
    rw [done]
    exact ⟨rfl, rfl⟩

theorem KernelFirst.new {s : Sys A} (first : KernelFirst s.toMachine) (cpu : Cpu) :
    KernelFirst ((addressSpaceNew cpu).exec s).2.toMachine := by
  rcases addressSpaceNew_roots cpu s with ⟨-, refused⟩ | ⟨root, known, done⟩ | ⟨-, -, done⟩
  · rw [refused]
    exact first
  · obtain ⟨sameKas, sameHandle⟩ := newFromKernel_keepsKernel root s
    rw [done]
    rcases first with ⟨kernel, handle, kas⟩ | ⟨unknown, -⟩
    · exact .inl ⟨kernel, sameHandle.trans handle, sameKas.trans kas⟩
    · exact absurd unknown known
  · rw [done]
    obtain ⟨sameKas, sameHandle⟩ :=
      newFromKernel_keepsKernel (cpu.cr3 &&& addrMask) (adoptKernel cpu s)
    exact .inl ⟨_, sameHandle, sameKas⟩

theorem freeSlot_used {k : Machine} {aspace : AddressSpace} {a : Fin maxAddressSpaces}
    (inUse : Used (freeSlot k aspace) a) : Used k a := by
  rw [freeSlot] at inUse
  dsimp only at inUse
  split at inUse
  · rename_i i _
    change (Function.update k.asSlots i { k.asSlots i with used := false, space := ⟨0⟩ } a).used =
      true at inUse
    rw [Function.update_apply] at inUse
    split at inUse
    · cases inUse
    · exact inUse
  · exact inUse

theorem freeSlot_keepsKernel (k : Machine) (aspace : AddressSpace) :
    (freeSlot k aspace).kas = k.kas ∧ (freeSlot k aspace).kasHandle = k.kasHandle := by
  rw [freeSlot]
  dsimp only
  split
  · exact ⟨rfl, rfl⟩
  · exact ⟨rfl, rfl⟩

theorem KernelFirst.destroy {s : Sys A} (first : KernelFirst s.toMachine)
    (aspace : AddressSpace) : KernelFirst (addressSpaceDestroy aspace s).toMachine := by
  obtain ⟨kas, handle⟩ := freeSlot_keepsKernel s.toMachine aspace
  rw [addressSpaceDestroy]
  split
  · exact first
  · exact first.congr kas handle fun _ => freeSlot_used

theorem KernelFirst.statics {k k' : Machine} (first : KernelFirst k) (same : SameStatics k k') :
    KernelFirst k' :=
  first.congr same.kas same.kasHandle fun _ inUse => used_congr same.asSlots ▸ inUse

theorem KernelFirst.call {s : Sys A} (first : KernelFirst s.toMachine) (call : Call) :
    KernelFirst (call.exec s).2.toMachine := by
  cases call with
  | new cpu => exact first.new cpu
  | destroy aspace => exact first.destroy aspace
  | map aspace v p flags => exact first.statics (map4k_statics aspace v p flags s)
  | unmap aspace v => exact first.statics (replaceLeaf_statics aspace v _ s)
  | protect aspace v flags => exact first.statics (replaceLeaf_statics aspace v _ s)

theorem BackendRun.kernelFirst {start s : Sys A} (run : BackendRun start s)
    (initial : KernelFirst start.toMachine) : KernelFirst s.toMachine := by
  induction run with
  | start => exact initial
  | @init s cpu _ inductionHypothesis =>
      rcases initKernel_cases cpu s with ⟨h, -, done⟩ | ⟨-, -, done⟩ | ⟨-, -, done⟩ <;> rw [done]
      · exact inductionHypothesis
      · exact inductionHypothesis
      · exact .inl ⟨_, rfl, rfl⟩
  | call call _ inductionHypothesis => exact inductionHypothesis.call call
  | activate index aspace _ inductionHypothesis =>
      exact inductionHypothesis.congr rfl rfl fun _ inUse => inUse
  | features nxe _ inductionHypothesis =>
      exact inductionHypothesis.congr rfl rfl fun _ inUse => inUse
  | written mem _ inductionHypothesis =>
      exact inductionHypothesis.congr rfl rfl fun _ inUse => inUse

end

/-- The statics as linked into the image, with an allocator. -/
def bootWith (view : Nat → MemMapEntry) (mem : Mem) (alloc : BootPtAlloc) :
    Sys (ViewAlloc view) :=
  { Machine.boot mem with ptAlloc := ⟨alloc⟩ }

theorem kernelFirst_bootWith (view : Nat → MemMapEntry) (mem : Mem) (alloc : BootPtAlloc) :
    KernelFirst (bootWith view mem alloc).toMachine := by
  refine .inr ⟨rfl, fun _ inUse => ?_⟩
  cases inUse

/-! ### What a failed call leaves behind -/

/-- The handle is the kernel's or that of a slot in use. -/
def LiveHandle (k : Machine) (aspace : AddressSpace) : Prop :=
  k.kasHandle = some aspace ∨ ∃ a, Used k a ∧ (k.asSlots a).handle = some aspace

section

variable {view : Nat → MemMapEntry} {s s' : Sys (ViewAlloc view)} {cpu : Cpu}

/-- The live handles, what their spaces translate and the frames still available are those
of before. -/
structure Untouched (s s' : Sys (ViewAlloc view)) : Prop where
  handles : ∀ aspace, LiveHandle s'.toMachine aspace ↔ LiveHandle s.toMachine aspace
  translations : ∀ aspace, LiveHandle s.toMachine aspace →
    ∀ v, translate s'.toMachine aspace v = translate s.toMachine aspace v
  frames : ∀ f, s'.ptAlloc.alloc.available view f = s.ptAlloc.alloc.available view f

/-- A failing `address_space_new` changes nothing of these. -/
def NewAtomic (cpu : Cpu) (s : Sys (ViewAlloc view)) : Prop :=
  ∀ e s', (addressSpaceNew cpu).exec s = (.error e, s') → Untouched s s'

/-- All slots are in use, and there is a frame to be taken. -/
def FrameStranded (s : Sys (ViewAlloc view)) : Prop :=
  (∀ a, Used s.toMachine a) ∧ ∃ f, s.ptAlloc.alloc.gives view 0 = some f

/-- The kernel space is still to be adopted, and there is no frame for another. -/
def AdoptsInVain (cpu : Cpu) (s : Sys (ViewAlloc view)) : Prop :=
  s.kasHandle = none ∧ cpu.cr3 &&& addrMask ≠ 0 ∧ s.ptAlloc.alloc.gives view 0 = none

theorem gives_of_alloc {a : ViewAlloc view} {m : Mem} {frame : Option PhysAddr}
    (done : allocFrame4k s.ptAlloc s.mem = (frame, a, m)) :
    s.ptAlloc.alloc.gives view 0 = frame := by
  rw [BootPtAlloc.gives, (viewAlloc_cases done).1]

theorem newAtomic_of (room : ¬ FrameStranded s) (useful : ¬ AdoptsInVain cpu s) :
    NewAtomic cpu s := by
  intro e s' failed
  rcases addressSpaceNew_roots cpu s with
    ⟨-, refused⟩ | ⟨root, -, done⟩ | ⟨unknown, nonzero, done⟩
  · obtain ⟨-, rfl⟩ := Prod.mk.inj (refused.symm.trans failed)
    exact ⟨fun _ => Iff.rfl, fun _ _ _ => rfl, fun _ => rfl⟩
  · rw [done] at failed
    rcases newFromKernel_cases root s with
      ⟨a, m, taken, ends⟩ | ⟨f, a, m, taken, ⟨full, -⟩ | ⟨i, -, ends⟩⟩
    · obtain ⟨-, rfl⟩ := Prod.mk.inj (ends.symm.trans failed)
      obtain ⟨nothing, rfl⟩ := viewAlloc_cases taken
      exact ⟨fun _ => Iff.rfl, fun _ _ _ => rfl, fun f => available_none nothing f⟩
    · exact absurd ⟨full, f, gives_of_alloc taken⟩ room
    · cases ends.symm.trans failed
  · -- The kernel is adopted now, so the call must not fail any more.
    rw [done] at failed
    rcases newFromKernel_cases (cpu.cr3 &&& addrMask) (adoptKernel cpu s) with
      ⟨a, m, taken, -⟩ | ⟨f, a, m, taken, ⟨full, -⟩ | ⟨i, -, ends⟩⟩
    · exact absurd ⟨unknown, nonzero, gives_of_alloc taken⟩ useful
    · exact absurd ⟨full, f, gives_of_alloc taken⟩ room
    · cases ends.symm.trans failed

/-- The frame taken for the new PML4 is not available any more. -/
theorem FrameStranded.not_newAtomic (stranded : FrameStranded s)
    (first : KernelFirst s.toMachine) (ends : ∀ f, s.ptAlloc.alloc.available view f ≠ ⊤) :
    ¬ NewAtomic cpu s := by
  intro atomic
  obtain ⟨full, f, available⟩ := stranded
  rcases first with ⟨root, handle, kas⟩ | ⟨-, unused⟩
  · have done := addressSpaceNew_adopted cpu handle kas
    rcases newFromKernel_cases root s with
      ⟨a, m, taken, -⟩ | ⟨g, a, m, taken, ⟨-, failed⟩ | ⟨i, free, -⟩⟩
    · rw [gives_of_alloc taken] at available
      cases available
    · have same := (atomic _ _ (done.trans failed)).frames g
      have counted := available_takeFrame (viewAlloc_cases taken).1 g
      rw [if_pos rfl] at counted
      have fewer : a.alloc.available view g < s.ptAlloc.alloc.available view g := by
        rw [counted]
        exact (ENat.lt_add_one_iff (same ▸ ends g)).mpr le_rfl
      exact fewer.ne same
    · have inUse := full i
      rw [Used, free] at inUse
      cases inUse
  · exact unused 0 (full 0)

/-- The kernel's handle is live after the call. -/
theorem AdoptsInVain.not_newAtomic (vain : AdoptsInVain cpu s)
    (first : KernelFirst s.toMachine) : ¬ NewAtomic cpu s := by
  intro atomic
  obtain ⟨unknown, nonzero, nothing⟩ := vain
  have unused : ∀ a, ¬ Used s.toMachine a := by
    rcases first with ⟨root, handle, -⟩ | ⟨-, unused⟩
    · rw [handle] at unknown
      cases unknown
    · exact unused
  rcases addressSpaceNew_roots cpu s with ⟨zero, -⟩ | ⟨root, known, -⟩ | ⟨-, -, done⟩
  · exact nonzero (zero unknown)
  · exact known unknown
  · rcases newFromKernel_cases (cpu.cr3 &&& addrMask) (adoptKernel cpu s) with
      ⟨a, m, -, failed⟩ | ⟨f, a, m, taken, -⟩
    · rcases ((atomic _ _ (done.trans failed)).handles .kas).mp (.inl rfl) with
        known | ⟨a, inUse, -⟩
      · rw [unknown] at known
        cases known
      · exact unused a inUse
    · have given : s.ptAlloc.alloc.gives view 0 = some f := gives_of_alloc taken
      rw [nothing] at given
      cases given

/-- `address_space_new` is atomic on failure unless a frame is stranded or the kernel is
adopted in vain.  In these states it is not, if no frame is given without end. -/
theorem newAtomic_iff {mem : Mem} {alloc : BootPtAlloc} (cpu : Cpu)
    (reached : BackendRun (bootWith view mem alloc) s) :
    (¬ FrameStranded s ∧ ¬ AdoptsInVain cpu s → NewAtomic cpu s) ∧
      (NewAtomic cpu s → (∀ f, s.ptAlloc.alloc.available view f ≠ ⊤) →
        ¬ FrameStranded s ∧ ¬ AdoptsInVain cpu s) := by
  have first := reached.kernelFirst (kernelFirst_bootWith view mem alloc)
  constructor
  · rintro ⟨room, useful⟩
    exact newAtomic_of room useful
  · intro atomic ends
    exact ⟨fun stranded => stranded.not_newAtomic first ends atomic,
      fun vain => vain.not_newAtomic first atomic⟩

end

/-- One usable page. -/
def singlePage : Nat → MemMapEntry :=
  fun _ => { base := 0x200000, len := 0x1000, memType := .usable, flags := 0 }

/-- The machine after so many creations of address spaces. -/
def creations (view : Nat → MemMapEntry) : Nat → Sys (ViewAlloc view)
  | 0 => bootWith view (fun _ => 0) tinyAlloc
  | calls + 1 => ((Call.new bootCpu).exec (creations view calls)).2

theorem backendRun_creations (view : Nat → MemMapEntry) (calls : Nat) :
    BackendRun (bootWith view (fun _ => 0) tinyAlloc) (creations view calls) := by
  induction calls with
  | zero => exact .start
  | succ calls inductionHypothesis => exact .call _ inductionHypothesis

/-- The second space finds no frame, and its failure leaves no trace. -/
theorem newAtomic_singlePage :
    ((addressSpaceNew bootCpu).exec (creations singlePage 1)).1 = .error .outOfMemory ∧
      NewAtomic bootCpu (creations singlePage 1) := by
  refine ⟨by decide +kernel, ?_⟩
  apply (newAtomic_iff bootCpu (backendRun_creations singlePage 1)).1
  constructor
  · rintro ⟨full, -⟩
    exact absurd (full 1) (by decide +kernel)
  · rintro ⟨unknown, -⟩
    exact absurd unknown (by decide +kernel)

/-- After 64 spaces another one is refused, and the frame taken for it is lost. -/
theorem full_table_loses_frame :
    let s := creations crowdedView 64
    let outcome := (addressSpaceNew bootCpu).exec s
    BackendRun (bootWith crowdedView (fun _ => 0) tinyAlloc) s ∧
      outcome.1 = .error .outOfMemory ∧
      s.ptAlloc.alloc.gives crowdedView 0 = some 0x240000 ∧
      outcome.2.ptAlloc.alloc.gives crowdedView 0 = some 0x241000 ∧
      ¬ NewAtomic bootCpu s := by
  have run := backendRun_creations crowdedView 64
  have full : ∀ a, Used (creations crowdedView 64).toMachine a := by decide +kernel
  have next : (creations crowdedView 64).ptAlloc.alloc.gives crowdedView 0 = some 0x240000 := by
    decide +kernel
  refine ⟨run, by decide +kernel, next, by decide +kernel, ?_⟩
  have inRange : InRange crowdedView (creations crowdedView 64).ptAlloc.alloc := by
    have below : crowdedEntry.base.toNat + crowdedEntry.len.toNat ≤ cursorLimit := by decide
    exact ⟨fun _ _ _ => below, by decide +kernel⟩
  generalize creations crowdedView 64 = s at run full next inRange ⊢
  have stranded : FrameStranded s := ⟨full, _, next⟩
  apply stranded.not_newAtomic (run.kernelFirst (kernelFirst_bootWith _ _ _))
  intro f
  rw [available_eq_count inRange]
  exact ENat.natCast_ne_top _

end RincOs
