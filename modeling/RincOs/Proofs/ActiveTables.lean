/-
Module: RincOs.Proofs.ActiveTables
Purpose: The page tables the CPUs run on.  As long as no space is destroyed while
  a CPU runs on it, the tables below every CR3 are not free and belong to no other
  space; `destroy_address_space` itself does not look at CR3.
Trusted boundary: none
Main exports:
  SpaceOp, Smp.perform, ActiveRun, ActiveSafe, activeSafe_of_run, active_root_freed
-/
import RincOs.Proofs.CurrentSpace
import RincOs.Proofs.KernelSide

namespace RincOs

open RadixForest LawfulFrameAlloc

/-! ### Runs on several CPUs -/

/-- The calls considered, each made on some CPU. -/
inductive SpaceOp where
  | new
  | destroy (aspace : AddressSpace)
  | map (aspace : AddressSpace) (v : VirtAddr) (p : PhysAddr) (flags : MapFlags)
  | activate (aspace : AddressSpace)

/-- The handles passed to the call are live. -/
def SpaceOp.OnLive (k : Machine) : SpaceOp → Prop
  | .new => True
  | .destroy aspace | .map aspace _ _ _ | .activate aspace => LiveSpace k aspace

section

variable {C A : Type} [DecidableEq C] [PageTableFrameAlloc A]

/-- The call on CPU `c`. -/
def Smp.perform (lapicId : C → BitVec 32) (s : Smp C A) (c : C) : SpaceOp → Smp C A
  | .new => { s with toSys := ((addressSpaceNew (s.cpu lapicId c)).exec s.toSys).2 }
  | .destroy aspace => { s with toSys := addressSpaceDestroy aspace s.toSys }
  | .map aspace v p flags => { s with toSys := ((map4k aspace v p flags).exec s.toSys).2 }
  | .activate aspace => s.activate lapicId c aspace

/-- The CPUs that run on tables of this kernel after the call on `c`. -/
def SpaceOp.running (c : C) (before : C → Prop) : SpaceOp → C → Prop
  | .activate _ => fun d => before d ∨ d = c
  | .new | .destroy _ | .map _ _ _ _ => before

/-- `init_kernel` on the boot CPU, then `apic::init`. -/
def Smp.afterBoot (lapicId : C → BitVec 32) (hasX2apic : Bool) (boot : C) (s : Smp C A) :
    Smp C A :=
  { s with
    toSys := ((initKernel (s.cpu lapicId boot)).exec s.toSys).2
    apicMode := apicInit hasX2apic }

/-- Calls on live handles, on any CPUs and in any order.  The first index says
which CPUs run on tables of this kernel: the boot CPU and those that activated
an address space. -/
inductive ActiveRun (lapicId : C → BitVec 32) (boot : C)
    (allowed : (C → Prop) → Smp C A → SpaceOp → Prop) (start : Smp C A) :
    (C → Prop) → Smp C A → Prop where
  | start : ActiveRun lapicId boot allowed start (fun c => c = boot) start
  | step {running : C → Prop} {s : Smp C A}
      (before : ActiveRun lapicId boot allowed start running s) (c : C) (op : SpaceOp)
      (live : op.OnLive s.toMachine) (may : allowed running s op) :
      ActiveRun lapicId boot allowed start (op.running c running) (s.perform lapicId c op)

omit [DecidableEq C] [PageTableFrameAlloc A] in
/-- No space is destroyed that a CPU runs on, and no page is mapped below a large
page. -/
def SafeOp (running : C → Prop) (s : Smp C A) : SpaceOp → Prop
  | .new | .activate _ | .destroy .kas => True
  | .destroy (.slot a) => ∀ c, running c → s.cr3 c &&& addrMask ≠ s.rootOf a
  | .map aspace v _ _ => largePage s.mem (s.asX86 aspace).pml4Phys v = false

end

/-! ### The property -/

/-- The tables the processor reaches from the lower half of a PML4, with their
levels; the PML4 counts. -/
inductive LowerTable (m : Mem) (root : PhysAddr) : Nat → PhysAddr → Prop where
  | pml4 : LowerTable m root 4 root
  | pdpt (i : Fin entryCount) (lower : i < kernelPml4Start)
      (entry : present (readEntry m root i) = true) :
      LowerTable m root 3 (readEntry m root i &&& addrMask)
  | inner {level : Nat} {t : PhysAddr} (above : LowerTable m root (level + 2) t)
      (bounded : level < 2) (i : Fin entryCount) (entry : present (readEntry m t i) = true)
      (small : isLarge (readEntry m t i) = false) :
      LowerTable m root (level + 1) (readEntry m t i &&& addrMask)

/-- The tables CPU `c` runs on are in use by one space, the one that `current()`
returns, and not free. -/
def ActiveSafe {C : Type} {map : BootMap} (lapicId : C → BitVec 32)
    (s : Smp C (BootAllocOver map)) (c : C) : Prop :=
  ∃ h, s.current lapicId c = some h ∧ (s.asX86 h).pml4Phys = s.cr3 c &&& addrMask ∧
    ∀ l t, LowerTable s.mem (s.cr3 c &&& addrMask) l t →
      t ∉ s.ptAlloc.alloc.freeList ∧
        ∀ other, LiveSpace s.toMachine other → other ≠ h →
          ∀ l', ¬ LowerTable s.mem (s.asX86 other).pml4Phys l' t

/-! ### Tables by owner -/

section

variable {A : Type} [PageTableFrameAlloc A] [LawfulFrameAlloc A]
variable {reserved : PhysAddr → Prop} {root t : PhysAddr} {level : Nat → PhysAddr → Prop}
variable {s : Sys A} {l : Nat}

omit [PageTableFrameAlloc A] [LawfulFrameAlloc A] in
theorem LowerTable.tableAt {m : Mem} (table : LowerTable m root l t) : TableAt m root l t := by
  induction table with
  | pml4 => exact .pml4
  | pdpt i _ entry => exact .pdpt i entry
  | inner _ bounded i entry small inductionHypothesis =>
      exact .inner inductionHypothesis bounded i entry (Bool.eq_false_iff.mp small)

/-- The tables below the lower half of a created space are those of its tree. -/
theorem lowerTable_hasTable {k : Machine} {a : Fin maxAddressSpaces} (used : Used k a)
    (table : LowerTable k.mem (k.rootOf a) l t) :
    ∃ path, path.length + l = 4 ∧ HasTable (Used k) k a path t := by
  induction table with
  | pml4 => exact ⟨[], rfl, .root used⟩
  | pdpt i lower entry =>
      have top : HasTable (Used k) k a [] (k.rootOf a) := .root used
      have admitted : LowerPath 3 ([] ++ [i]) := ⟨by simp, by simpa using lower⟩
      exact ⟨[i], rfl, top.child admitted (nextTable_eq_some.mpr ⟨entry, rfl⟩)⟩
  | @inner level t above bounded i entry small inductionHypothesis =>
      obtain ⟨path, length, table⟩ := inductionHypothesis
      have admitted : LowerPath 3 (path ++ [i]) := by
        obtain ⟨-, head⟩ := table.admitted
        cases path with
        | nil =>
            rw [List.length_nil] at length
            omega
        | cons j path =>
            rw [List.length_cons] at length
            refine ⟨?_, head⟩
            rw [List.length_append, List.length_cons, List.length_singleton]
            omega
      refine ⟨path ++ [i], ?_, table.child admitted (nextTable_eq_some.mpr ⟨entry, rfl⟩)⟩
      rw [List.length_append, List.length_singleton]
      omega

/-- The tables of a live space: those of its tree, for the kernel those of the
kernel side. -/
def OwnedBy (level : Nat → PhysAddr → Prop) (k : Machine) (t : PhysAddr) :
    AddressSpace → Prop
  | .kas => ∃ l, level l t
  | .slot a => ∃ path, HasTable (Used k) k a path t

/-- What the processor reaches from the lower half of a space belongs to it. -/
theorem SplitInv.ownedBy (split : SplitInv reserved root level s) {aspace : AddressSpace}
    (live : LiveSpace s.toMachine aspace)
    (table : LowerTable s.mem (s.asX86 aspace).pml4Phys l t) :
    OwnedBy level s.toMachine t aspace := by
  cases aspace with
  | kas =>
      rw [Machine.asX86, split.side.known.2, Option.getD_some] at table
      exact ⟨l, split.kernel_tableAt table.tableAt⟩
  | slot a =>
      obtain ⟨path, -, table⟩ := lowerTable_hasTable live table
      exact ⟨path, table⟩

/-- A table has one owner, -/
theorem SplitInv.owner_unique (split : SplitInv reserved root level s) {one two : AddressSpace}
    (first : OwnedBy level s.toMachine t one) (second : OwnedBy level s.toMachine t two) :
    one = two := by
  cases one with
  | kas =>
      obtain ⟨l, known⟩ := first
      cases two with
      | kas => rfl
      | slot b =>
          obtain ⟨path, table⟩ := second
          exact absurd table (split.side.apart known)
  | slot a =>
      obtain ⟨path, table⟩ := first
      cases two with
      | kas =>
          obtain ⟨l, known⟩ := second
          exact absurd table (split.side.apart known)
      | slot b =>
          obtain ⟨rest, other⟩ := second
          rw [(split.inv.trees.forest table other).1]

/-- and is reserved or held. -/
theorem SplitInv.owned_safe (split : SplitInv reserved root level s) {aspace : AddressSpace}
    (owned : OwnedBy level s.toMachine t aspace) : reserved t ∨ Held s.ptAlloc t := by
  cases aspace with
  | kas =>
      obtain ⟨l, known⟩ := owned
      exact split.side.safe known
  | slot a =>
      obtain ⟨path, table⟩ := owned
      exact Or.inr (split.inv.trees.held table)

theorem SplitInv.root_isFrame (split : SplitInv reserved root level s) {aspace : AddressSpace}
    (live : LiveSpace s.toMachine aspace) : IsFrame (s.asX86 aspace).pml4Phys := by
  cases aspace with
  | kas =>
      rw [Machine.asX86, split.side.known.2, Option.getD_some]
      exact split.side.isFrame split.side.top
  | slot a => exact split.inv.trees.roots live

end

/-! ### The invariant of the runs -/

section

variable {C A : Type} [DecidableEq C] [PageTableFrameAlloc A] [LawfulFrameAlloc A]

/-- The two sides, and for each running CPU a live space that `current()` returns
and whose root is in CR3. -/
structure ActiveInv (lapicId : C → BitVec 32) (mode : ApicMode) (reserved : PhysAddr → Prop)
    (root : PhysAddr) (running : C → Prop) (s : Smp C A) : Prop where
  split : ∃ level, SplitInv reserved root level s.toSys
  mode : s.apicMode = mode
  tracked : ∀ c, running c → ∃ h, LiveSpace s.toMachine h ∧ s.current lapicId c = some h ∧
    (s.asX86 h).pml4Phys = s.cr3 c &&& addrMask

variable {lapicId : C → BitVec 32} {mode : ApicMode} {reserved : PhysAddr → Prop}
variable {root : PhysAddr} {running : C → Prop} {s : Smp C A}

omit [DecidableEq C] in
/-- The invariant after a call that keeps the spaces the CPUs run on. -/
theorem ActiveInv.of_kept (inv : ActiveInv lapicId mode reserved root running s) {after : Sys A}
    (split : ∃ level, SplitInv reserved root level after)
    (current : after.currentPerCpu = s.currentPerCpu)
    (kept : ∀ c a, running c → Used s.toMachine a → s.cr3 c &&& addrMask = s.rootOf a →
      Used after.toMachine a ∧ after.rootOf a = s.rootOf a) :
    ActiveInv lapicId mode reserved root running { s with toSys := after } where
  split := split
  mode := inv.mode
  tracked c isRunning := by
    obtain ⟨h, live, known, top⟩ := inv.tracked c isRunning
    have still : (Smp.current lapicId { s with toSys := after } c) = some h := by
      rw [← known, Smp.current, Smp.current, Machine.current, Machine.current, current]
      rfl
    cases h with
    | kas =>
        obtain ⟨level, before⟩ := inv.split
        obtain ⟨level', later⟩ := split
        refine ⟨.kas, trivial, still, ?_⟩
        rw [← top, Machine.asX86, Machine.asX86, later.side.known.2, before.side.known.2]
    | slot a =>
        obtain ⟨used, same⟩ := kept c a isRunning live top.symm
        exact ⟨.slot a, used, still, same.trans top⟩

theorem ActiveInv.activate (inv : ActiveInv lapicId mode reserved root running s)
    (injective : Function.Injective fun c => cpuIndex mode (lapicId c)) (c : C)
    {aspace : AddressSpace} (live : LiveSpace s.toMachine aspace) :
    ActiveInv lapicId mode reserved root (fun d => running d ∨ d = c)
      (s.activate lapicId c aspace) where
  split := by
    obtain ⟨level, split⟩ := inv.split
    exact ⟨level, split.activate (s.index lapicId c) aspace⟩
  mode := inv.mode
  tracked d isRunning := by
    have stillLive : ∀ {h}, LiveSpace s.toMachine h →
        LiveSpace (s.activate lapicId c aspace).toMachine h := by
      intro h alive
      cases h with
      | kas => trivial
      | slot a => exact alive
    by_cases same : d = c
    · obtain ⟨level, split⟩ := inv.split
      refine ⟨aspace, stillLive live, ?_, ?_⟩
      · rw [Smp.current_activate, same, if_pos rfl]
      · rw [Smp.asX86_activate, Smp.cr3_activate, same, Function.update_self]
        have frame := split.root_isFrame live
        rw [IsFrame] at frame
        rw [frame, frame]
    · obtain ⟨h, alive, known, top⟩ := inv.tracked d (isRunning.resolve_right same)
      have apart : s.index lapicId d ≠ s.index lapicId c := by
        rw [Smp.index, Smp.index, inv.mode]
        exact fun equal => same (injective equal)
      refine ⟨h, stillLive alive, ?_, ?_⟩
      · rw [Smp.current_activate, if_neg apart]
        exact known
      · rw [Smp.asX86_activate, Smp.cr3_activate, Function.update_of_ne same]
        exact top

omit [LawfulFrameAlloc A] in
/-- `address_space_new` leaves the per-CPU table alone once the kernel is adopted. -/
theorem addressSpaceNew_current {t : Sys A} (cpu : Cpu) (known : KernelAt root t.toMachine) :
    ((addressSpaceNew cpu).exec t).2.currentPerCpu = t.currentPerCpu := by
  rw [addressSpaceNew_adopted cpu known.1 known.2]
  rcases newFromKernel_cases root t with
    ⟨al, m, -, done⟩ | ⟨f, al, m, -, ⟨-, done⟩ | ⟨i, -, done⟩⟩ <;> rw [done]

theorem ActiveInv.step (inv : ActiveInv lapicId mode reserved root running s)
    (injective : Function.Injective fun c => cpuIndex mode (lapicId c))
    (isReserved : reserved root) (c : C) {op : SpaceOp} (live : op.OnLive s.toMachine)
    (safe : SafeOp running s op) :
    ActiveInv lapicId mode reserved root (op.running c running) (s.perform lapicId c op) := by
  obtain ⟨level, split⟩ := inv.split
  cases op with
  | new =>
      have may : LowerCall s.toMachine (.new (s.cpu lapicId c)) := trivial
      have ends := call_spacesEnd split.inv split.spares isReserved
        (split.side.isFrame split.side.top) (Or.inl split.side.known) may
        (fun cpu same => by cases same; rfl) rfl
      apply inv.of_kept ⟨level, split.new (s.cpu lapicId c)⟩
        (addressSpaceNew_current _ split.side.known)
      intro d a _ used _
      exact ends.kept used (by rintro ⟨⟩)
  | destroy aspace =>
      cases aspace with
      | kas =>
          have same : addressSpaceDestroy .kas s.toSys = s.toSys := by
            rw [addressSpaceDestroy, split.side.known.1]
            rfl
          rw [Smp.perform, same]
          exact inv
      | slot a =>
          have destroys := addressSpaceDestroy_spec split.inv.trees split.inv.handles live live
          have ends : SpacesEnd root 0 _ _ _ := destroys.spacesEnd (Or.inl split.side.known)
          apply inv.of_kept ⟨level, split.destroy live⟩ (by rw [destroys.machine])
          intro d b isRunning used active
          apply ends.kept used
          rintro ⟨⟩
          exact safe d isRunning active
  | map aspace v p flags =>
      have statics := map4k_statics aspace v p flags s.toSys
      apply inv.of_kept (split.map p flags live safe) statics.currentPerCpu
      intro d a _ used _
      rw [Used, Machine.rootOf, statics.asSlots]
      exact ⟨used, rfl⟩
  | activate aspace => exact inv.activate injective c live

end

/-! ### Whole runs -/

section

variable {C : Type} [DecidableEq C] {map : BootMap} {alloc : BootAllocOver map} {info : BootInfo}
variable {lapicId : C → BitVec 32} {hasX2apic : Bool} {boot : C} {mem : Mem} {cr3 : C → Word}
variable {running : C → Prop} {s : Smp C (BootAllocOver map)}

omit [DecidableEq C] in
/-- What the invariant says of the boot allocator's free list. -/
theorem ActiveInv.activeSafe {mode : ApicMode} {root : PhysAddr} (rootFrame : IsFrame root)
    (inv : ActiveInv lapicId mode (IsTable mem root) root running s)
    (apart : ∀ t, IsTable mem root t → ¬ InFreePage map t) {c : C} (isRunning : running c) :
    ActiveSafe lapicId s c := by
  obtain ⟨level, split⟩ := inv.split
  obtain ⟨h, live, current, top⟩ := inv.tracked c isRunning
  refine ⟨h, current, top, fun l t table => ?_⟩
  rw [← top] at table
  have owned := split.ownedBy live table
  constructor
  · intro listed
    rcases split.owned_safe owned with isReserved | held
    · have page := split.inv.trees.valid.freePages listed
      exact apart t isReserved
        ((BootMap.mem_pages_iff (isReserved.isFrame rootFrame)).mp page)
    · exact held.2.1 listed
  · intro other alive different l' shared
    exact different (split.owner_unique (split.ownedBy alive shared) owned)

omit [DecidableEq C] in
/-- The state after the boot order. -/
theorem activeInv_afterBoot (created : BootPtAlloc.new info = some alloc.alloc)
    (count : info.mem.entryCount.toNat = map.count) (nonzero : cr3 boot &&& addrMask ≠ 0)
    (atZero : cpuIndex (apicInit hasX2apic) (lapicId boot) = 0)
    (oneLevel : ∀ {l l' t}, TableAt mem (cr3 boot &&& addrMask) l t →
      TableAt mem (cr3 boot &&& addrMask) l' t → l = l')
    (apart : ∀ t, IsTable mem (cr3 boot &&& addrMask) t → ¬ InFreePage map t) :
    ActiveInv lapicId (apicInit hasX2apic) (IsTable mem (cr3 boot &&& addrMask))
      (cr3 boot &&& addrMask) (fun c => c = boot)
      (Smp.afterBoot lapicId hasX2apic boot
        (Smp.linked mem (fun _ => emptySlot) alloc cr3)) := by
  have rootFrame := isFrame_and_addrMask (cr3 boot)
  have spares : Spares (IsTable mem (cr3 boot &&& addrMask)) alloc := by
    intro al _ f held table
    exact apart f table ((BootMap.mem_pages_iff (table.isFrame rootFrame)).mp held.1)
  rw [Smp.afterBoot, initKernel_linked nonzero]
  refine ⟨⟨_, NoSpaces.splitInv ?spaces rfl ⟨rfl, rfl⟩ rootFrame spares oneLevel⟩, rfl,
    ?tracked⟩
  case spaces =>
    exact ⟨bootValid_new created count, fun _ used => (nomatch used), fun _ same => (nomatch same)⟩
  case tracked =>
    rintro c rfl
    refine ⟨.kas, trivial, ?_, rfl⟩
    have current : ∀ index : Fin maxCpus, index = 0 →
        Function.update (fun _ => none) 0 (some AddressSpace.kas) index =
          some AddressSpace.kas := by
      rintro _ rfl
      exact Function.update_self _ _ _
    exact current _ atZero

/-- Over every run in which no space is destroyed that a CPU runs on, with CPUs
told apart by their index and kernel tables that the allocator does not count as
free, the tables in use stay in use by their space only. -/
theorem activeSafe_of_run (created : BootPtAlloc.new info = some alloc.alloc)
    (count : info.mem.entryCount.toNat = map.count) (nonzero : cr3 boot &&& addrMask ≠ 0)
    (distinct : Function.Injective fun c => cpuId (apicInit hasX2apic) (lapicId c))
    (onlyBoot : ∀ c, cpuIndex (apicInit hasX2apic) (lapicId c) = 0 ↔ c = boot)
    (oneLevel : ∀ {l l' t}, TableAt mem (cr3 boot &&& addrMask) l t →
      TableAt mem (cr3 boot &&& addrMask) l' t → l = l')
    (apart : ∀ t, IsTable mem (cr3 boot &&& addrMask) t → ¬ InFreePage map t)
    (run : ActiveRun lapicId boot SafeOp
      (Smp.afterBoot lapicId hasX2apic boot (Smp.linked mem (fun _ => emptySlot) alloc cr3))
      running s) :
    ∀ c, running c → ActiveSafe lapicId s c := by
  have inv : ActiveInv lapicId (apicInit hasX2apic) (IsTable mem (cr3 boot &&& addrMask))
      (cr3 boot &&& addrMask) running s := by
    induction run with
    | start =>
        exact activeInv_afterBoot created count nonzero ((onlyBoot boot).mpr rfl) oneLevel apart
    | step _ c op live may inductionHypothesis =>
        exact inductionHypothesis.step (cpuIndex_injective distinct onlyBoot) ⟨4, .pml4⟩ c
          live may
  exact fun c isRunning => inv.activeSafe (isFrame_and_addrMask (cr3 boot)) apart isRunning

end

/-! ### A small machine -/

/-- One CPU, booted on the small machine with an empty PML4 at 1 MiB. -/
def tinyCpu : Smp Unit (BootAllocOver tinyMap) :=
  Smp.afterBoot (fun _ => 0) false ()
    (Smp.linked (fun _ => 0) (fun _ => emptySlot) ⟨tinyAlloc⟩ fun _ => 0x100000)

/-- The empty PML4 has no tables below it. -/
theorem tableAt_empty {l : Nat} {t root : PhysAddr} (table : TableAt (fun _ => 0) root l t) :
    l = 4 ∧ t = root := by
  cases table with
  | pml4 => exact ⟨rfl, rfl⟩
  | pdpt i entry => simp [readEntry, present] at entry
  | inner _ _ i entry => simp [readEntry, present] at entry

/-- A space is created and activated, a second one is created and destroyed. -/
theorem activeSafe_tinyCpu :
    ∃ running s, ActiveRun (fun _ => 0) () SafeOp tinyCpu running s ∧ running () ∧
      ActiveSafe (fun _ => 0) s () := by
  have created : ActiveRun (fun _ => 0) () SafeOp tinyCpu _
      (tinyCpu.perform (fun _ => 0) () .new) := .step .start () .new trivial trivial
  generalize first : tinyCpu.perform (fun _ => 0) () .new = s₁ at created
  have used : Used s₁.toMachine 0 := by subst first; decide +kernel
  have activated := created.step () (.activate (.slot 0)) used trivial
  have again := activated.step () .new trivial trivial
  generalize second : (s₁.perform (fun _ => 0) () (.activate (.slot 0))).perform
    (fun _ => 0) () .new = s₂ at again
  have other : s₂.cr3 () &&& addrMask ≠ s₂.rootOf 1 := by subst second first; decide +kernel
  have destroyed := again.step () (.destroy (.slot 1))
    (show Used s₂.toMachine 1 by subst second first; decide +kernel) fun _ _ => other
  have made : BootPtAlloc.new tinyBoot = some tinyAlloc := (Option.some_get (by decide)).symm
  refine ⟨_, _, destroyed, Or.inr rfl, @activeSafe_of_run Unit _ tinyMap ⟨tinyAlloc⟩ tinyBoot
    (fun _ => 0) false () (fun _ => 0) (fun _ => 0x100000) _ _ made rfl (by decide)
    (fun _ _ _ => rfl) (fun _ => iff_of_true (by decide) rfl) ?_ ?_ destroyed () (Or.inr rfl)⟩
  · intro l l' t one two
    rw [(tableAt_empty one).1, (tableAt_empty two).1]
  · rintro t ⟨l, table⟩ ⟨i, -, -, low, -⟩
    have outside : ¬ tinyEntry.base.toNat ≤ (0x100000 &&& addrMask).toNat := by decide
    rw [(tableAt_empty table).2] at low
    exact outside low

/-- The CPU runs on a space when it is destroyed: its PML4 is on the free list. -/
theorem active_root_freed :
    ∃ running s, ActiveRun (fun _ => 0) () (fun _ _ _ => True) tinyCpu running s ∧ running () ∧
      s.cr3 () &&& addrMask ∈ s.ptAlloc.alloc.freeList ∧ ¬ ActiveSafe (fun _ => 0) s () := by
  have created : ActiveRun (fun _ => 0) () (fun _ _ _ => True) tinyCpu _
      (tinyCpu.perform (fun _ => 0) () .new) := .step .start () .new trivial trivial
  generalize first : tinyCpu.perform (fun _ => 0) () .new = s₁ at created
  have used : Used s₁.toMachine 0 := by subst first; decide +kernel
  have activated := created.step () (.activate (.slot 0)) used trivial
  have destroyed := activated.step () (.destroy (.slot 0)) used trivial
  generalize last : (s₁.perform (fun _ => 0) () (.activate (.slot 0))).perform (fun _ => 0) ()
    (.destroy (.slot 0)) = s₂ at destroyed
  have freed : s₂.cr3 () &&& addrMask ∈ s₂.ptAlloc.alloc.freeList := by
    subst last first
    decide +kernel
  refine ⟨_, _, destroyed, Or.inr rfl, freed, ?_⟩
  rintro ⟨h, -, -, safe⟩
  exact (safe 4 _ .pml4).1 freed

end RincOs
