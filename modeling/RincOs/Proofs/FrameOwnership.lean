/-
Module: RincOs.Proofs.FrameOwnership
Purpose: Who owns which frame over whole runs on the boot allocator, and that
  address spaces are isolated from one another.
Trusted boundary: none
Main exports:
  CanProduce, FreshStart, FrameOwnership, frameOwnership_of_run,
  spaces_isolated
-/
import RincOs.Proofs.BootOwnership
import RincOs.Proofs.BumpAlloc
import RincOs.Proofs.Runs

namespace RincOs

open RadixForest LawfulFrameAlloc

/-! ### What the cursor can still produce -/

/-- The allocator after `n` more calls of `next_from_map`. -/
def BootPtAlloc.afterNext (view : Nat → MemMapEntry) : Nat → BootPtAlloc → BootPtAlloc
  | 0, alloc => alloc
  | n + 1, alloc => (alloc.nextFromMap view).2.afterNext view n

/-- Some later call of `next_from_map` returns `f`. -/
def CanProduce (view : Nat → MemMapEntry) (alloc : BootPtAlloc) (f : PhysAddr) : Prop :=
  ∃ n, ((alloc.afterNext view n).nextFromMap view).1 = some f

/-- The n-th call returns the n-th page left. -/
theorem BootValid.nextFromMap_nth {map : BootMap} (n : Nat) {alloc : BootPtAlloc}
    (valid : BootValid map alloc) :
    ((alloc.afterNext map.view n).nextFromMap map.view).1 =
      (alloc.remaining map.view)[n]? := by
  induction n generalizing alloc with
  | zero => rw [BootPtAlloc.afterNext, valid.nextFromMap.2.2.1, List.head?_eq_getElem?]
  | succ n inductionHypothesis =>
      obtain ⟨same, cursor, -, rest⟩ := valid.nextFromMap
      rw [BootPtAlloc.afterNext, inductionHypothesis (valid.advance same cursor rest), rest,
        List.getElem?_tail]

theorem BootValid.canProduce_iff {map : BootMap} {alloc : BootPtAlloc}
    (valid : BootValid map alloc) {f : PhysAddr} :
    CanProduce map.view alloc f ↔ f ∈ alloc.remaining map.view := by
  rw [CanProduce, List.mem_iff_getElem?]
  simp only [valid.nextFromMap_nth]

/-! ### The invariant, as a statement about frames -/

/-- A machine on which no address space was created yet, with a new allocator
over the memory map. -/
structure FreshStart (map : BootMap) (s : Sys (BootAllocOver map)) : Prop where
  alloc : ∃ boot : BootInfo, BootPtAlloc.new boot = some s.ptAlloc.alloc ∧
    boot.mem.entryCount.toNat = map.count
  slots : ∀ i, ¬ Used s.toMachine i
  kernel : ∀ i, s.kasHandle ≠ some (.slot i)

/-- Every frame has at most one place.  `HasTable` positions have at most three
indices, so a tree has at most four levels. -/
structure FrameOwnership (map : BootMap) (s : Sys (BootAllocOver map)) : Prop where
  onePosition : ∀ {a b path rest t}, HasTable (Used s.toMachine) s.toMachine a path t →
    HasTable (Used s.toMachine) s.toMachine b rest t → a = b ∧ path = rest
  freeNotTable : ∀ {f}, f ∈ s.ptAlloc.alloc.freeList →
    ∀ {a path}, ¬ HasTable (Used s.toMachine) s.toMachine a path f
  freeNodup : s.ptAlloc.alloc.freeList.Nodup
  aheadUnused : ∀ {f}, CanProduce map.view s.ptAlloc.alloc f →
    f ∉ s.ptAlloc.alloc.freeList ∧
      ∀ {a path}, ¬ HasTable (Used s.toMachine) s.toMachine a path f
  destroyOnce : ∀ {a}, Used s.toMachine a →
    (destroyedFrames s.mem (s.asX86 (.slot a)).pml4Phys).Nodup
  destroyTables : ∀ {a}, Used s.toMachine a →
    ∀ t ∈ destroyedFrames s.mem (s.asX86 (.slot a)).pml4Phys,
      (∃ path, HasTable (Used s.toMachine) s.toMachine a path t) ∧
        t ∉ s.ptAlloc.alloc.freeList

variable {map : BootMap} {start s s' : Sys (BootAllocOver map)} {history : List Event}

/-- A new allocator has an empty free list and all pages ahead of it. -/
theorem bootPtAlloc_new {boot : BootInfo} {alloc : BootPtAlloc}
    (created : BootPtAlloc.new boot = some alloc)
    (count : boot.mem.entryCount.toNat = map.count) :
    alloc.entryCount = map.count ∧ alloc.curAddr = 0 ∧ alloc.freeList = [] ∧
      alloc.remaining map.view = map.pages := by
  rw [BootMap.pages, ← count]
  exact bootPtAlloc_new_cursor created

theorem bootValid_new {boot : BootInfo} {alloc : BootPtAlloc}
    (created : BootPtAlloc.new boot = some alloc)
    (count : boot.mem.entryCount.toNat = map.count) : BootValid map alloc := by
  obtain ⟨entries, cursor, empty, all⟩ := bootPtAlloc_new created count
  refine ⟨⟨entries, ?_, all ▸ List.suffix_rfl, ?_⟩, ?_, ?_⟩
  · rw [cursor]
    exact Nat.zero_le _
  all_goals simp [empty]

theorem FreshStart.runInv (fresh : FreshStart map start) : RunInv start := by
  obtain ⟨boot, created, count⟩ := fresh.alloc
  exact NoSpaces.runInv ⟨bootValid_new created count, fresh.slots, fresh.kernel⟩

theorem RunInv.frameOwnership (inv : RunInv s) : FrameOwnership map s where
  onePosition one two := inv.trees.forest one two
  freeNotTable listed _ _ table := (inv.trees.held table).2.1 listed
  freeNodup := inv.trees.valid.freeNodup
  aheadUnused produced := by
    have ahead := inv.trees.valid.canProduce_iff.mp produced
    exact ⟨fun listed => inv.trees.valid.freeBehind listed ahead,
      fun table => (inv.trees.held table).2.2 ahead⟩
  destroyOnce used := inv.trees.destroyedFrames_nodup used
  destroyTables used t inside := by
    obtain ⟨path, table⟩ := (inv.trees.mem_destroyedFrames used).mp inside
    exact ⟨⟨path, table⟩, (inv.trees.held table).2.1⟩

/-! ### A small machine -/

/-- 16 usable pages at 2 MiB. -/
def tinyEntry : MemMapEntry :=
  { base := 0x200000, len := 0x10000, memType := .usable, flags := 0 }

def tinyMap : BootMap := .single tinyEntry (by decide)

def tinyBoot : BootInfo where
  hhdmOffset := 0xffff800000000000
  mem := { entriesPtr := 0xffffffff80200000, entryCount := 1, entrySize := 24, flags := 0 }

/-- The allocator over a map of one entry. -/
def tinyAlloc : BootPtAlloc := (BootPtAlloc.new tinyBoot).get (by decide)

def tinyStart : Sys (BootAllocOver tinyMap) :=
  { Machine.boot (fun _ => 0) with
    ptAlloc := ⟨tinyAlloc⟩ }

theorem freshStart_tinyStart : FreshStart tinyMap tinyStart where
  alloc := ⟨tinyBoot, (Option.some_get (by decide)).symm, rfl⟩
  slots := by decide
  kernel := by decide

/-- The small machine with two new address spaces. -/
def tinySpaces : Sys (BootAllocOver tinyMap) :=
  ((Call.new bootCpu).exec ((Call.new bootCpu).exec tinyStart).2).2

theorem runs_tinySpaces : ∃ history, Runs LowerCall tinyStart history tinySpaces :=
  ⟨_, (Runs.start.extend (.new bootCpu) trivial).extend (.new bootCpu) trivial⟩

/-! ### Whole runs -/

/-- In every state of every run each frame has at most one place, and destroying
a space would free each of its tables once and nothing else. -/
theorem frameOwnership_of_run (fresh : FreshStart map start)
    (run : Runs LowerCall start history s) : FrameOwnership map s :=
  (runInv_of_lowerRun run fresh.runInv).frameOwnership

/-- A page is mapped in each of two spaces, then the second is destroyed. -/
def tinyDestroyed (a b : Fin maxAddressSpaces) : Sys (BootAllocOver tinyMap) :=
  ((Call.destroy (.slot b)).exec
    ((Call.map (.slot b) 0x400000 0x8000 .user).exec
      ((Call.map (.slot a) 0x400000 0x7000 .user).exec tinySpaces).2).2).2

theorem runs_tinyDestroyed : ∃ history, Runs LowerCall tinyStart history (tinyDestroyed 0 1) := by
  obtain ⟨history, run⟩ := runs_tinySpaces
  have mapped := run.extend (.map (.slot 0) 0x400000 0x7000 .user)
    ⟨0, rfl, by decide +kernel, by decide⟩
  have both := mapped.extend (.map (.slot 1) 0x400000 0x8000 .user)
    ⟨1, rfl, by decide +kernel, by decide⟩
  exact ⟨_, both.extend (.destroy (.slot 1)) ⟨1, rfl, by decide +kernel⟩⟩

/-- The four tables of the second space are on the free list, those of the first are not. -/
theorem frameOwnership_tinyDestroyed :
    Used (tinyDestroyed 0 1).toMachine 0 ∧ ¬ Used (tinyDestroyed 0 1).toMachine 1 ∧
      (tinyDestroyed 0 1).ptAlloc.alloc.freeList.length = 4 ∧
      FrameOwnership tinyMap (tinyDestroyed 0 1) := by
  obtain ⟨history, run⟩ := runs_tinyDestroyed
  exact ⟨by decide +kernel, by decide +kernel, by decide +kernel,
    frameOwnership_of_run freshStart_tinyStart run⟩

/-- A call that is not made on space `b` changes no leaf slot of `b`, and no
translation. -/
theorem spaces_isolated (fresh : FreshStart map start)
    (run : Runs LowerCall start history s) {call : Call}
    {result : Except MapError AddressSpace} (may : LowerCall s.toMachine call)
    (done : call.exec s = (result, s')) {b : Fin maxAddressSpaces}
    (alive : Used s.toMachine b) (other : ¬ call.On (.slot b)) :
    ∀ v, LowerHalf v →
      leafEntry s'.mem (s'.asX86 (.slot b)).pml4Phys v =
          leafEntry s.mem (s.asX86 (.slot b)).pml4Phys v ∧
        translate s'.toMachine (.slot b) v = translate s.toMachine (.slot b) v := by
  intro v lower
  have inv := runInv_of_lowerRun run fresh.runInv
  have same := (lowerCall_step inv may done).keeps.leafEntry_eq ⟨alive, other⟩ lower
  exact ⟨same, translate_congr lower.canonical same⟩

/-- Mapping a page in one of two spaces does not show in the other. -/
theorem tinySpaces_isolated :
    translate ((Call.map (.slot 0) 0x400000 0x7000 .user).exec tinySpaces).2.toMachine
        (.slot 1) 0x400000 =
      translate tinySpaces.toMachine (.slot 1) 0x400000 := by
  obtain ⟨history, run⟩ := runs_tinySpaces
  have may : LowerCall tinySpaces.toMachine (.map (.slot 0) 0x400000 0x7000 .user) :=
    ⟨0, rfl, by decide +kernel, by decide⟩
  exact (spaces_isolated freshStart_tinyStart run may rfl (b := 1) (by decide +kernel)
    (by simp [Call.On]) 0x400000 (by decide)).2

end RincOs
