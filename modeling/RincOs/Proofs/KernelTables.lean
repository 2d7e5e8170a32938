/-
Module: RincOs.Proofs.KernelTables
Purpose: When the boot allocator leaves the page tables of the running kernel
  alone.  It hands out bootloader-reclaimable pages, so the tables the
  bootloader left there are handed out as well.
Trusted boundary: none
Main exports:
  hwWalk_congr, ClientRun, KernelTablesSafe, kernelTablesSafe_iff,
  kernelRoot_handed_out
-/
import RincOs.Proofs.FrameOwnership

namespace RincOs

open RadixForest LawfulFrameAlloc

/-! ### The processor reads tables only -/

section

variable {m m' : Mem} {root t : PhysAddr}

theorem IsTable.isFrame (frame : IsFrame root) (table : IsTable m root t) : IsFrame t := by
  obtain ⟨level, table⟩ := table
  cases table with
  | pml4 => exact frame
  | pdpt i => exact isFrame_and_addrMask _
  | inner => exact isFrame_and_addrMask _

/-- The walk depends on the words of the tables below the root, nothing else. -/
theorem hwWalk_congr
    (same : ∀ {t}, IsTable m root t → ∀ i, readEntry m' t i = readEntry m t i)
    (v : VirtAddr) : hwWalk m' root v = hwWalk m root v := by
  have top : TableAt m root 4 root := .pml4
  simp only [hwWalk, same ⟨4, top⟩]
  generalize first : readEntry m root (pml4Index v) = e1
  cases present1 : present e1 with
  | false => rfl
  | true =>
      have pdpt : TableAt m root 3 (e1 &&& addrMask) :=
        first ▸ .pdpt (pml4Index v) (first ▸ present1)
      rw [same ⟨3, pdpt⟩]
      generalize second : readEntry m (e1 &&& addrMask) (pdptIndex v) = e2
      cases present2 : present e2 with
      | false => simp
      | true =>
          cases large2 : isLarge e2 with
          | true => simp
          | false =>
              have pd : TableAt m root 2 (e2 &&& addrMask) :=
                second ▸ .inner pdpt (by decide) (pdptIndex v) (second ▸ present2)
                  (by simp [second, large2])
              rw [same ⟨2, pd⟩]
              generalize third : readEntry m (e2 &&& addrMask) (pdIndex v) = e3
              cases present3 : present e3 with
              | false => simp
              | true =>
                  cases large3 : isLarge e3 with
                  | true => simp
                  | false =>
                      have pt : TableAt m root 1 (e3 &&& addrMask) :=
                        third ▸ .inner pd (by decide) (pdIndex v) (third ▸ present3)
                          (by simp [third, large3])
                      rw [same ⟨1, pt⟩]

end

/-! ### Clients of the allocator -/

/-- Calls of `alloc_frame_4k` and `free_frame_4k` in any order, where only frames
returned earlier are freed.  `given` lists the frames returned so far. -/
inductive ClientRun (view : Nat → MemMapEntry) (alloc₀ : BootPtAlloc) (m₀ : Mem) :
    List PhysAddr → BootPtAlloc → Mem → Prop where
  | start : ClientRun view alloc₀ m₀ [] alloc₀ m₀
  | alloc {given : List PhysAddr} {alloc after : BootPtAlloc} {m m' : Mem} {f : PhysAddr}
      (before : ClientRun view alloc₀ m₀ given alloc m)
      (done : alloc.allocFrame4k view m = (some f, after, m')) :
      ClientRun view alloc₀ m₀ (f :: given) after m'
  | refused {given : List PhysAddr} {alloc after : BootPtAlloc} {m m' : Mem}
      (before : ClientRun view alloc₀ m₀ given alloc m)
      (done : alloc.allocFrame4k view m = (none, after, m')) :
      ClientRun view alloc₀ m₀ given after m'
  | free {given : List PhysAddr} {alloc : BootPtAlloc} {m : Mem} {f : PhysAddr}
      (before : ClientRun view alloc₀ m₀ given alloc m) (known : f ∈ given) :
      ClientRun view alloc₀ m₀ given (alloc.freeFrame4k f) m

section

variable {map : BootMap} {alloc₀ alloc : BootPtAlloc} {m₀ m : Mem} {given : List PhysAddr}

/-- Every frame a client is given is a page of the map. -/
theorem ClientRun.given_pages (run : ClientRun map.view alloc₀ m₀ given alloc m)
    (inMap : BootInMap map alloc₀) :
    BootInMap map alloc ∧ ∀ f ∈ given, f ∈ map.pages := by
  induction run with
  | start => exact ⟨inMap, by simp⟩
  | alloc _ done inductionHypothesis =>
      obtain ⟨inMap', pages⟩ := inductionHypothesis
      obtain ⟨after, page⟩ := inMap'.takeFrame (allocFrame4k_eq done).1
      refine ⟨after, fun g known => ?_⟩
      rcases List.mem_cons.mp known with rfl | old
      · exact page g rfl
      · exact pages g old
  | refused _ done inductionHypothesis =>
      obtain ⟨inMap', pages⟩ := inductionHypothesis
      exact ⟨(inMap'.takeFrame (allocFrame4k_eq done).1).1, pages⟩
  | free _ known inductionHypothesis =>
      obtain ⟨inMap', pages⟩ := inductionHypothesis
      exact ⟨inMap'.freeFrame4k (pages _ known), pages⟩

/-- By allocating often enough a client is given any page left. -/
theorem ClientRun.reaches {f : PhysAddr} {left : List PhysAddr}
    (run : ClientRun map.view alloc₀ m₀ given alloc m) (inMap : BootInMap map alloc)
    (empty : alloc.freeList = []) (remaining : alloc.remaining map.view = left)
    (page : f ∈ left) :
    ∃ given alloc m, ClientRun map.view alloc₀ m₀ given alloc m ∧ f ∈ given := by
  induction left generalizing given alloc m with
  | nil => simp at page
  | cons top left inductionHypothesis =>
      obtain ⟨same, cursor, head, rest⟩ := inMap.nextFromMap
      have taken : alloc.takeFrame map.view = alloc.nextFromMap map.view := by
        rcases takeFrame_cases map.view alloc with ⟨_, _, _, free, _⟩ | ⟨-, done⟩
        · rw [empty] at free
          cases free
        · exact done
      rcases outcome : alloc.nextFromMap map.view with ⟨frame, after⟩
      rw [outcome] at same cursor head rest taken
      dsimp only at same cursor head rest
      rw [remaining, List.head?_cons] at head
      have done : alloc.allocFrame4k map.view m = (some top, after, zeroFrame m top) := by
        rw [BootPtAlloc.allocFrame4k, taken, head]
      have next := run.alloc done
      rcases List.mem_cons.mp page with rfl | later
      · exact ⟨_, _, _, next, List.mem_cons_self⟩
      · exact inductionHypothesis next (inMap.advance same cursor rest)
          (by rw [same]; exact empty) (by rw [rest, remaining, List.tail_cons]) later

end

/-! ### The tables of the running kernel -/

/-- The frame at `t` lies in a usable or bootloader-reclaimable entry as a whole. -/
def InFreePage (map : BootMap) (t : PhysAddr) : Prop := InFreeEntry map.view map.count t

theorem BootMap.mem_pages_iff {map : BootMap} {t : PhysAddr} (frame : IsFrame t) :
    t ∈ map.pages ↔ InFreePage map t := by
  constructor
  · intro page
    obtain ⟨i, inMap, inside⟩ := BootMap.mem_pages.mp page
    obtain ⟨usable, -, low, high⟩ := BootMap.toNat_of_mem_pagesIn inMap inside
    exact ⟨i, inMap, usable, low, high⟩
  · intro free
    exact mem_pagesFrom_of_wholePage ⟨((isFrame_iff t).mp frame).1, free⟩

/-- `address_space_new` and lower-half `map_4k` calls. -/
def NewOrMap (k : Machine) (call : Call) : Prop :=
  LowerCall k call ∧ ((∃ cpu, call = .new cpu) ∨ ∃ a v p flags, call = .map a v p flags)

/-- The tables below `root` are never handed out, and the translations of `root`
survive whatever address spaces are created and filled. -/
structure KernelTablesSafe (map : BootMap) (start : Sys (BootAllocOver map))
    (root : PhysAddr) : Prop where
  neverGiven : ∀ {given alloc m},
    ClientRun map.view start.ptAlloc.alloc start.mem given alloc m →
      ∀ f ∈ given, ¬ IsTable start.mem root f
  survive : ∀ {history s}, Runs NewOrMap start history s →
    ∀ v, hwWalk s.mem root v = hwWalk start.mem root v

section

variable {map : BootMap} {start s : Sys (BootAllocOver map)} {history : List Event}

/-- Over a whole run memory changes only in pages of the map. -/
theorem runs_write_pages (fresh : FreshStart map start)
    (run : Runs LowerCall start history s) :
    ∀ x, s.mem x = start.mem x ∨ ∃ t, IsFrame t ∧ InFrame t x ∧ t ∈ map.pages := by
  have kept : RunInv s ∧ ∀ x, s.mem x = start.mem x ∨
      ∃ t, IsFrame t ∧ InFrame t x ∧ t ∈ map.pages := by
    refine run.invariant (P := fun s => RunInv s ∧ ∀ x, s.mem x = start.mem x ∨
      ∃ t, IsFrame t ∧ InFrame t x ∧ t ∈ map.pages) ⟨fresh.runInv, fun x => Or.inl rfl⟩ ?_
    rintro s s' call result ⟨inv, early⟩ may done
    have ends := lowerCall_step inv may done
    refine ⟨ends.inv, fun x => ?_⟩
    rcases ends.frame x with same | ⟨t, isFrame, inside, held⟩
    · rw [same]
      exact early x
    · exact Or.inr ⟨t, isFrame, inside, held.1⟩
  exact kept.2

theorem Runs.mono {A : Type} [PageTableFrameAlloc A] {allowed more : Machine → Call → Prop}
    {start s : Sys A} {history : List Event} (run : Runs allowed start history s)
    (sub : ∀ {k call}, allowed k call → more k call) : Runs more start history s := by
  induction run with
  | start => exact .start
  | step _ may done inductionHypothesis => exact .step inductionHypothesis (sub may) done

/-- The kernel's tables are safe exactly if none of them is a page the boot
allocator counts as free. -/
theorem kernelTablesSafe_iff (fresh : FreshStart map start) (cpu : Cpu) :
    KernelTablesSafe map start (cpu.cr3 &&& addrMask) ↔
      ∀ t, IsTable start.mem (cpu.cr3 &&& addrMask) t → ¬ InFreePage map t := by
  obtain ⟨boot, created, count⟩ := fresh.alloc
  have valid := bootValid_new created count
  have rootFrame := isFrame_and_addrMask cpu.cr3
  constructor
  · rintro ⟨neverGiven, -⟩ t table free
    have page := (BootMap.mem_pages_iff (table.isFrame rootFrame)).mpr free
    obtain ⟨-, -, empty, all⟩ := bootPtAlloc_new created count
    have idle : ClientRun map.view start.ptAlloc.alloc start.mem [] _ _ := .start
    obtain ⟨given, alloc, m, run, known⟩ :=
      idle.reaches valid.toBootInMap empty all page
    exact neverGiven run t known table
  · intro apart
    constructor
    · intro given alloc m run f known table
      have page := (run.given_pages valid.toBootInMap).2 f known
      exact apart f table ((BootMap.mem_pages_iff (table.isFrame rootFrame)).mp page)
    · intro history s run v
      refine hwWalk_congr (fun {t} table i => ?_) v
      have frame := table.isFrame rootFrame
      rcases runs_write_pages fresh (run.mono And.left) (entryAddr t i) with
        same | ⟨g, isFrame, inside, page⟩
      · exact same
      · rw [(inFrame_entryAddr_iff frame isFrame i).mp inside] at page
        exact absurd ((BootMap.mem_pages_iff frame).mp page) (apart t table)

/-- A PML4 at 1 MiB and a PDPT in the next frame, which maps the bottom of the upper half
by a 1 GiB page. -/
def reclaimMem : Mem := fun x =>
  if x = 0x100800 then 0x101003 else if x = 0x101000 then 0x40000083 else 0

theorem table_reclaimMem {level : Nat} {t : PhysAddr}
    (table : TableAt reclaimMem 0x100000 level t) :
    (level = 4 ∧ t = 0x100000) ∨ (level = 3 ∧ t = 0x101000) := by
  have root : ∀ i, present (readEntry reclaimMem 0x100000 i) = true →
      readEntry reclaimMem 0x100000 i &&& addrMask = 0x101000 := by decide +kernel
  have pdpt : ∀ i, present (readEntry reclaimMem 0x101000 i) = true →
      isLarge (readEntry reclaimMem 0x101000 i) = true := by decide +kernel
  induction table with
  | pml4 => exact Or.inl ⟨rfl, rfl⟩
  | pdpt i entry => exact Or.inr ⟨rfl, root i entry⟩
  | inner _ bounded i entry small inductionHypothesis =>
      rcases inductionHypothesis with ⟨top, -⟩ | ⟨-, rfl⟩
      · omega
      · exact absurd (pdpt i entry) small

/-- With free memory from 2 MiB on, both tables are outside the map. -/
theorem kernelTablesSafe_reclaimMem :
    KernelTablesSafe tinyMap { tinyStart with mem := reclaimMem } (bootCpu.cr3 &&& addrMask) ∧
      hwWalk reclaimMem (bootCpu.cr3 &&& addrMask) 0xffff800000000000 ≠ none := by
  have fresh : FreshStart tinyMap { tinyStart with mem := reclaimMem } :=
    ⟨freshStart_tinyStart.alloc, freshStart_tinyStart.slots, freshStart_tinyStart.kernel⟩
  refine ⟨(kernelTablesSafe_iff fresh bootCpu).mpr ?_, by decide +kernel⟩
  rintro t ⟨level, table⟩ ⟨i, -, -, low, -⟩
  have root : ¬ tinyEntry.base.toNat ≤ (0x100000 : PhysAddr).toNat := by decide
  have pdpt : ¬ tinyEntry.base.toNat ≤ (0x101000 : PhysAddr).toNat := by decide
  rcases table_reclaimMem table with ⟨-, rfl⟩ | ⟨-, rfl⟩
  · exact root low
  · exact pdpt low

end

/-! ### A kernel whose tables the bootloader left in reclaimable memory -/

/-- 16 bootloader-reclaimable pages at 1 MiB: both tables are among them. -/
def reclaimEntry : MemMapEntry :=
  { base := 0x100000, len := 0x10000, memType := .bootloaderReclaimable, flags := 0 }

def reclaimMap : BootMap := .single reclaimEntry (by decide)

def reclaimStart : Sys (BootAllocOver reclaimMap) :=
  { Machine.boot reclaimMem with
    kas := some ⟨0x100000⟩
    kasHandle := some .kas
    ptAlloc := ⟨tinyAlloc⟩ }

/-- All tables of this kernel are in the reclaimable entry.  The first frame the
allocator returns is the kernel's PML4, and creating one address space removes
the kernel's mapping. -/
theorem kernelRoot_handed_out :
    (∀ t, IsTable reclaimStart.mem 0x100000 t →
        reclaimEntry.memType = .bootloaderReclaimable ∧
          reclaimEntry.base.toNat ≤ t.toNat ∧
          t.toNat + 4096 ≤ reclaimEntry.base.toNat + reclaimEntry.len.toNat) ∧
      (∃ alloc m, ClientRun reclaimMap.view reclaimStart.ptAlloc.alloc reclaimStart.mem
        [0x100000] alloc m) ∧
      (hwWalk reclaimStart.mem 0x100000 0xffff800000000000).map HwMapping.phys =
        some 0x40000000 ∧
      hwWalk ((Call.new bootCpu).exec reclaimStart).2.mem 0x100000 0xffff800000000000 = none ∧
      ¬ KernelTablesSafe reclaimMap reclaimStart 0x100000 := by
  have given : ∃ alloc m, ClientRun reclaimMap.view reclaimStart.ptAlloc.alloc
      reclaimStart.mem [0x100000] alloc m := ⟨_, _, .alloc .start rfl⟩
  refine ⟨?_, given, by decide +kernel, by decide +kernel, fun safe => ?_⟩
  · rintro t ⟨level, table⟩
    rcases table_reclaimMem table with ⟨-, rfl⟩ | ⟨-, rfl⟩ <;> decide
  · obtain ⟨alloc, m, run⟩ := given
    exact safe.neverGiven run 0x100000 List.mem_cons_self ⟨4, .pml4⟩

end RincOs
