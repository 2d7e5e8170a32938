/-
Module: RincOs.Proofs.TlbCoherence
Purpose: The TLB of a single CPU.  It may be filled from the walk of the active
  root at any moment, also between two writes of an operation; the `invlpg` of
  each update and the CR3 write of each switch keep it equal to the page tables.
Trusted boundary: when a TLB may be filled, and what evicts its entries
Main exports:
  OneCpu, Fills, CpuStep, CpuStart, tlb_coherent
-/
import RincOs.Proofs.KernelRoot
import Mathlib.Logic.Relation

namespace RincOs

open RadixForest LawfulFrameAlloc

variable {A : Type}

/-! ### One CPU with its TLB -/

/-- The first address of a page. -/
def pageBase (n : Nat) : VirtAddr := BitVec.ofNat 64 (n * 4096)

/-- The leaf entry the walk of `v` ends at, at any of the three page sizes. -/
def hwLeaf (m : Mem) (root : PhysAddr) (v : VirtAddr) : Option Word :=
  let e1 := readEntry m root (pml4Index v)
  if !present e1 then none else
  let e2 := readEntry m (e1 &&& addrMask) (pdptIndex v)
  if !present e2 then none else
  if isLarge e2 then some e2 else
  let e3 := readEntry m (e2 &&& addrMask) (pdIndex v)
  if !present e3 then none else
  if isLarge e3 then some e3 else
  let e4 := readEntry m (e3 &&& addrMask) (ptIndex v)
  if !present e4 then none else some e4

/-- The machine, the CR3 of its CPU and the entries its TLB holds. -/
structure OneCpu (A : Type) extends Sys A where
  cr3 : Word
  tlb : TlbEntry HwMapping → Prop

/-- The root of the active page tables. -/
def OneCpu.root (s : OneCpu A) : PhysAddr := s.cr3 &&& addrMask

/-- The entry is for a page of a canonical address and has the frame and the
rights that the walk from `root` gives for that page. -/
structure Translates (m : Mem) (root : PhysAddr) (entry : TlbEntry HwMapping) : Prop where
  inRange : entry.page < 2 ^ 52
  canonical : isCanonical (pageBase entry.page) = true
  walk : hwWalk m root (pageBase entry.page) = some entry.content

/-- The walk from `root` may put the entry into the TLB.  Only leaves without the
G bit are considered: in a run where no leaf carries it there are no others. -/
structure Fills (m : Mem) (root : PhysAddr) (entry : TlbEntry HwMapping) : Prop
    extends Translates m root entry where
  flag : (hwLeaf m root (pageBase entry.page)).map (fun leaf => leaf &&& pteG != 0) =
    some entry.global
  plain : entry.global = false

/-- None of the instructions evicts the entry. -/
def Survives (ops : List TlbOp) (entry : TlbEntry HwMapping) : Prop :=
  ∀ op ∈ ops, op.evicts entry = false

/-- The handle is that of the adopted kernel space or of a slot in use. -/
def Activatable (k : Machine) : AddressSpace → Prop
  | .kas => k.kasHandle = some .kas
  | .slot a => Used k a

/-- The call is one this CPU may make: a new space is made with its own CR3, and
the active one is not destroyed. -/
def OneCpu.Allows (s : OneCpu A) (call : Call) : Prop :=
  LowerCall s.toMachine call ∧
    match call with
    | .new cpu => cpu.cr3 = s.cr3
    | .destroy aspace => (s.asX86 aspace).pml4Phys ≠ s.root
    | .map _ _ _ _ | .unmap _ _ | .protect _ _ _ => True

/-- `activate`: the write of CR3 evicts what is not global. -/
def OneCpu.activate (s : OneCpu A) (index : Fin maxCpus) (aspace : AddressSpace) : OneCpu A :=
  let (cr3, machine) := s.toMachine.activate index aspace
  { toMachine := machine
    ptAlloc := s.ptAlloc
    cr3 := cr3
    tlb := fun entry => s.tlb entry ∧ Survives [.writeCr3 cr3] entry }

/-- The steps of the CPU.  After a call the TLB holds only entries that it held
before or that were filled while the call was executed, and of those only the
ones that survive its maintenance or were filled after it. -/
inductive CpuStep [PageTableFrameAlloc A] : OneCpu A → OneCpu A → Prop where
  | fill {s : OneCpu A} {entry : TlbEntry HwMapping} (fills : Fills s.mem s.root entry) :
      CpuStep s { s with tlb := fun other => s.tlb other ∨ other = entry }
  | drop {s : OneCpu A} {tlb : TlbEntry HwMapping → Prop}
      (fewer : ∀ entry, tlb entry → s.tlb entry) : CpuStep s { s with tlb := tlb }
  | call {s : OneCpu A} {s' : Sys A} {call : Call} {result : Except MapError AddressSpace}
      {ops : List TlbOp} {tlb : TlbEntry HwMapping → Prop} (may : s.Allows call)
      (done : call.exec s.toSys = (result, s'))
      (maintained : s'.tlbOps = s.tlbOps ++ ops)
      (cached : ∀ entry, tlb entry → Fills s'.mem s.root entry ∨
        Survives ops entry ∧ (s.tlb entry ∨ ∃ m, call.Seen s.toSys m ∧ Fills m s.root entry)) :
      CpuStep s { toSys := s', cr3 := s.cr3, tlb := tlb }
  | activate {s : OneCpu A} {aspace : AddressSpace} (index : Fin maxCpus)
      (live : Activatable s.toMachine aspace) : CpuStep s (s.activate index aspace)

/-! ### Walks of the active root -/

/-- Walks depend on the root through one entry of the PML4 only. -/
theorem hwWalk_root_congr {m : Mem} {root other : PhysAddr} {v : VirtAddr}
    (same : readEntry m root (pml4Index v) = readEntry m other (pml4Index v)) :
    hwWalk m root v = hwWalk m other v := by
  rw [hwWalk, hwWalk, same]

theorem pageOf_pageBase {n : Nat} (inRange : n < 2 ^ 52) : pageOf (pageBase n) = n := by
  rw [pageOf, pageBase, BitVec.toNat_ofNat]
  omega

section

variable [PageTableFrameAlloc A] [LawfulFrameAlloc A]
variable {m₀ m : Mem} {kernelRoot : PhysAddr} {s s' : OneCpu A}

/-- The invariant of the runs.  `m₀` is the memory at their start: the kernel's
tables have not changed since, all roots share its kernel half, and the TLB is
coherent. -/
structure CoherenceInv (m₀ : Mem) (kernelRoot : PhysAddr) (s : OneCpu A) : Prop where
  rootFrame : IsFrame kernelRoot
  inv : RunInv s.toSys
  kernel : KernelRoot kernelRoot s.root s.toMachine
  spares : Spares (IsTable m₀ kernelRoot) s.ptAlloc
  words : ∀ {t}, IsTable m₀ kernelRoot t → ∀ i, readEntry s.mem t i = readEntry m₀ t i
  shared : ∀ {a}, Used s.toMachine a → ∀ i, kernelPml4Start ≤ i →
    readEntry s.mem (s.rootOf a) i = readEntry m₀ kernelRoot i
  active : s.root = kernelRoot ∨ ∃ a, Used s.toMachine a ∧ s.root = s.rootOf a
  coherent : ∀ entry, s.tlb entry → Translates s.mem s.root entry ∧ entry.global = false

/-- In a memory with the same walks the active root translates as before. -/
theorem CoherenceInv.walk_eq {flushed : VirtAddr → Prop} {v : VirtAddr}
    (inv : CoherenceInv m₀ kernelRoot s)
    (same : SameWalks (IsTable m₀ kernelRoot) flushed s.toMachine m)
    (canonical : isCanonical v = true) (other : ¬ flushed v) :
    hwWalk m s.root v = hwWalk s.mem s.root v := by
  have isRoot : IsTable m₀ kernelRoot kernelRoot := ⟨4, .pml4⟩
  have words : ∀ {t}, IsTable m₀ kernelRoot t → ∀ i, readEntry m t i = readEntry m₀ t i :=
    fun table i => (same.kernel table i).trans (inv.words table i)
  have kernelWalk : hwWalk m kernelRoot v = hwWalk s.mem kernelRoot v :=
    (hwWalk_congr words v).trans (hwWalk_congr inv.words v).symm
  rcases inv.active with active | ⟨a, used, active⟩
  · rw [active]
    exact kernelWalk
  · rw [active]
    rcases lowerHalf_or_kernel canonical with lower | upper
    · exact same.lower used lower other
    · -- above the split both roots have the entry of the kernel root
      have before := inv.shared used _ upper
      have after := (same.upper used _ upper).trans before
      rw [hwWalk_root_congr (after.trans (words isRoot _).symm),
        hwWalk_root_congr (before.trans (inv.words isRoot _).symm)]
      exact kernelWalk

/-- An entry that no `invlpg` evicted is for an address that was not flushed. -/
theorem Survives.not_flushed {ops : List TlbOp} {entry : TlbEntry HwMapping}
    (survives : Survives ops entry) (inRange : entry.page < 2 ^ 52) :
    ¬ FlushedBy ops (pageBase entry.page) := by
  rintro ⟨v, executed, page⟩
  have kept := survives _ executed
  rw [pageOf_pageBase inRange] at page
  simp [TlbOp.evicts, page] at kept

/-! ### Runs -/

/-- The state a run starts in: no space was created, CR3 holds the kernel's root,
whose tables the allocator never holds, and the TLB is coherent. -/
structure CpuStart (s : OneCpu A) : Prop where
  spaces : NoSpaces s.toSys
  kernel : s.kasHandle = none ∨ KernelAt s.root s.toMachine
  disjoint : Spares (IsTable s.mem s.root) s.ptAlloc
  filled : ∀ entry, s.tlb entry → Fills s.mem s.root entry

theorem CpuStart.coherenceInv (start : CpuStart s) : CoherenceInv s.mem s.root s where
  rootFrame := isFrame_and_addrMask s.cr3
  inv := start.spaces.runInv
  kernel := by
    rcases start.kernel with unknown | known
    · exact Or.inr ⟨unknown, rfl, start.spaces.unused⟩
    · exact Or.inl known
  spares := start.disjoint
  words _ _ := rfl
  shared {a} used := absurd used (start.spaces.unused a)
  active := Or.inl rfl
  coherent entry inside := ⟨(start.filled entry inside).toTranslates,
    (start.filled entry inside).plain⟩

theorem Translates.same {entry : TlbEntry HwMapping} {m' : Mem} {root : PhysAddr}
    (translates : Translates m root entry)
    (same : hwWalk m' root (pageBase entry.page) = hwWalk m root (pageBase entry.page)) :
    Translates m' root entry :=
  ⟨translates.inRange, translates.canonical, same.trans translates.walk⟩

/-- What a call leaves in the TLB is what the walk gives afterwards. -/
theorem CoherenceInv.cached_call {after : Sys A} {call : Call} {ops : List TlbOp}
    {result : Except MapError AddressSpace} {entry : TlbEntry HwMapping}
    (inv : CoherenceInv m₀ kernelRoot s) (may : s.Allows call)
    (done : call.exec s.toSys = (result, after))
    (maintained : after.tlbOps = s.tlbOps ++ ops)
    (cached : Fills after.mem s.root entry ∨ Survives ops entry ∧
      (s.tlb entry ∨ ∃ m, call.Seen s.toSys m ∧ Fills m s.root entry)) :
    Translates after.mem s.root entry ∧ entry.global = false := by
  have frames : ∀ t, IsTable m₀ kernelRoot t → IsFrame t :=
    fun _ table => table.isFrame inv.rootFrame
  have final := call_sameWalks inv.inv inv.spares frames may.1 done maintained
  have settle : ∀ {m}, SameWalks (IsTable m₀ kernelRoot) (FlushedBy ops) s.toMachine m →
      Survives ops entry → Translates m s.root entry → Translates after.mem s.root entry := by
    intro m passing survives translates
    have other := survives.not_flushed translates.inRange
    apply translates.same
    rw [inv.walk_eq final translates.canonical other,
      inv.walk_eq passing translates.canonical other]
  rcases cached with fills | ⟨survives, old | ⟨m, seen, fills⟩⟩
  · exact ⟨fills.toTranslates, fills.plain⟩
  · obtain ⟨translates, plain⟩ := inv.coherent entry old
    exact ⟨settle (.refl s.toMachine) survives translates, plain⟩
  · have passing := seen_sameWalks inv.inv inv.spares frames may.1 done maintained seen
    exact ⟨settle passing survives fills.toTranslates, fills.plain⟩

theorem CoherenceInv.call {after : Sys A} {call : Call} {ops : List TlbOp}
    {result : Except MapError AddressSpace} {tlb : TlbEntry HwMapping → Prop}
    (inv : CoherenceInv m₀ kernelRoot s) (may : s.Allows call)
    (done : call.exec s.toSys = (result, after))
    (maintained : after.tlbOps = s.tlbOps ++ ops)
    (cached : ∀ entry, tlb entry → Fills after.mem s.root entry ∨ Survives ops entry ∧
      (s.tlb entry ∨ ∃ m, call.Seen s.toSys m ∧ Fills m s.root entry)) :
    CoherenceInv m₀ kernelRoot { toSys := after, cr3 := s.cr3, tlb := tlb } := by
  have isRoot : IsTable m₀ kernelRoot kernelRoot := ⟨4, .pml4⟩
  have same := call_sameWalks inv.inv inv.spares
    (fun _ table => table.isFrame inv.rootFrame) may.1 done maintained
  have spaces := call_spacesEnd inv.inv inv.spares isRoot inv.rootFrame inv.kernel may.1
    (fun cpu isNew => by
      subst isNew
      rw [show cpu.cr3 = s.cr3 from may.2]
      rfl) done
  refine
    { rootFrame := inv.rootFrame
      inv := (lowerCall_step inv.inv may.1 done).inv
      kernel := spaces.kernel
      spares := inv.spares.serves (lowerCall_serves inv.inv may.1 done)
      words := fun table i => (same.kernel table i).trans (inv.words table i)
      shared := fun {a} used i upper => ?shared
      active := ?active
      coherent := fun entry inside =>
        inv.cached_call may done maintained (cached entry inside) }
  case shared =>
    rcases spaces.shared used with ⟨old, root⟩ | new
    · rw [root]
      exact (same.upper old i upper).trans (inv.shared old i upper)
    · exact (new i upper).trans (inv.words isRoot i)
  case active =>
    rcases inv.active with active | ⟨a, used, active⟩
    · exact Or.inl active
    · have stays : call ≠ .destroy (.slot a) := by
        rintro rfl
        exact may.2 active.symm
      obtain ⟨used', root⟩ := spaces.kept used stays
      exact Or.inr ⟨a, used', active.trans root.symm⟩

theorem CoherenceInv.activate {aspace : AddressSpace} (index : Fin maxCpus)
    (inv : CoherenceInv m₀ kernelRoot s) (live : Activatable s.toMachine aspace) :
    CoherenceInv m₀ kernelRoot (s.activate index aspace) := by
  have known : KernelAt kernelRoot s.toMachine := by
    rcases inv.kernel with known | ⟨unknown, -, unused⟩
    · exact known
    · cases aspace with
      | kas => exact nomatch unknown.symm.trans live
      | slot a => exact absurd live (unused a)
  -- CR3 gets the root of the space, which is a frame
  have loaded : ∀ root, IsFrame root → (s.asX86 aspace).pml4Phys = root →
      (s.asX86 aspace).pml4Phys &&& addrMask &&& addrMask = root := by
    intro root frame same
    rw [same, frame, frame]
  refine
    { rootFrame := inv.rootFrame
      inv := inv.inv.activate index aspace
      kernel := Or.inl known
      spares := inv.spares
      words := inv.words
      shared := inv.shared
      active := ?active
      coherent := ?coherent }
  case active =>
    cases aspace with
    | kas =>
        left
        apply loaded _ inv.rootFrame
        rw [Machine.asX86, known.2, Option.getD_some]
    | slot a => exact Or.inr ⟨a, live, loaded _ (inv.inv.trees.roots live) rfl⟩
  case coherent =>
    -- the write of CR3 evicts everything, as no entry is global
    rintro entry ⟨old, survives⟩
    have kept := survives _ List.mem_cons_self
    rw [TlbOp.evicts, (inv.coherent entry old).2] at kept
    cases kept

theorem CoherenceInv.step (inv : CoherenceInv m₀ kernelRoot s) (step : CpuStep s s') :
    CoherenceInv m₀ kernelRoot s' := by
  cases step with
  | fill fills =>
      refine { inv with coherent := ?_ }
      rintro entry (old | rfl)
      · exact inv.coherent entry old
      · exact ⟨fills.toTranslates, fills.plain⟩
  | drop fewer =>
      exact { inv with coherent := fun entry inside => inv.coherent entry (fewer entry inside) }
  | call may done maintained cached => exact inv.call may done maintained cached
  | activate index live => exact inv.activate index live

theorem CpuStart.coherenceInv_of_run {start : OneCpu A} (initial : CpuStart start)
    (run : Relation.ReflTransGen CpuStep start s) :
    CoherenceInv start.mem start.root s := by
  induction run with
  | refl => exact initial.coherenceInv
  | tail _ step inductionHypothesis => exact inductionHypothesis.step step

/-- In every run, between the operations every TLB entry is what the walk of the
active root gives for its page. -/
theorem tlb_coherent {start : OneCpu A} (initial : CpuStart start)
    (run : Relation.ReflTransGen CpuStep start s) {entry : TlbEntry HwMapping}
    (inTlb : s.tlb entry) :
    hwWalk s.mem (s.cr3 &&& addrMask) (pageBase entry.page) = some entry.content :=
  ((initial.coherenceInv_of_run run).coherent entry inTlb).1.walk

end

/-! ### A small run -/

/-- A kernel with one page table below its root, on a CPU with an empty TLB. -/
def coldCpu : OneCpu (Recorded BumpAlloc) :=
  { adoptedSys with cr3 := 0x100000, tlb := fun _ => False }

theorem cpuStart_coldCpu : CpuStart coldCpu where
  spaces := ⟨trivial, fun _ used => (nomatch used), fun _ same => (nomatch same)⟩
  kernel := Or.inr ⟨rfl, by decide⟩
  disjoint := by
    rintro a - f ⟨n, -, bound, rfl⟩ ⟨level, table⟩
    have low := toNat_bumpFrame bound
    rcases table_reclaimMem table with ⟨-, same⟩ | ⟨-, same⟩
    · rw [same, show (0x100000 : PhysAddr).toNat = 0x100000 from rfl] at low
      omega
    · rw [same, show (0x101000 : PhysAddr).toNat = 0x101000 from rfl] at low
      omega
  filled _ inside := inside.elim

/-- The state after a call when the TLB lost all its entries. -/
def OneCpu.after [PageTableFrameAlloc A] (s : OneCpu A) (call : Call) : OneCpu A :=
  { toSys := (call.exec s.toSys).2, cr3 := s.cr3, tlb := fun _ => False }

theorem OneCpu.step_after [PageTableFrameAlloc A] {s : OneCpu A} {call : Call}
    (ops : List TlbOp) (may : s.Allows call)
    (maintained : (call.exec s.toSys).2.tlbOps = s.tlbOps ++ ops) :
    CpuStep s (s.after call) :=
  .call may rfl maintained fun _ inside => inside.elim

/-- The page at 4 KiB as the TLB caches it. -/
def cachedPage : TlbEntry HwMapping :=
  { page := 1
    global := false
    content := { phys := 0x5000, user := false, writable := false, executable := true } }

/-- A space is created and activated, a page is mapped in it and cached. -/
theorem tlb_coherent_coldCpu :
    ∃ s, Relation.ReflTransGen CpuStep coldCpu s ∧ s.tlb cachedPage ∧
      hwWalk s.mem (s.cr3 &&& addrMask) (pageBase cachedPage.page) =
        some cachedPage.content := by
  have created : CpuStep coldCpu (coldCpu.after (.new bootCpu)) :=
    OneCpu.step_after [] ⟨trivial, rfl⟩ (by decide +kernel)
  generalize made : coldCpu.after (.new bootCpu) = fresh at created
  have activated : CpuStep fresh (fresh.activate 0 (.slot 0)) :=
    .activate 0 (show Used fresh.toMachine 0 by subst made; decide +kernel)
  generalize switch : fresh.activate 0 (.slot 0) = active at activated
  have mapped : CpuStep active (active.after (.map (.slot 0) 0x1000 0x5000 .read)) :=
    OneCpu.step_after [.invlpg 0x1000]
      ⟨⟨0, rfl, by subst switch made; decide +kernel, by decide⟩, trivial⟩
      (by subst switch made; decide +kernel)
  generalize update : active.after (.map (.slot 0) 0x1000 0x5000 .read) = full at mapped
  have fills : Fills full.mem full.root cachedPage :=
    { inRange := by decide
      canonical := by decide
      walk := by subst update switch made; decide +kernel
      flag := by subst update switch made; decide +kernel
      plain := rfl }
  have run := (((Relation.ReflTransGen.single created).tail activated).tail mapped).tail
    (.fill fills)
  exact ⟨_, run, Or.inr rfl, tlb_coherent cpuStart_coldCpu run (Or.inr rfl)⟩

end RincOs
