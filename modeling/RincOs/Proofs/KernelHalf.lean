/-
Module: RincOs.Proofs.KernelHalf
Purpose: What created spaces share with the kernel.  A PML4 slot that was filled
  when the space was created leads both to the same tables for good; a slot the
  kernel fills later is not propagated.
Trusted boundary: none
Main exports:
  AdoptedKernel, translate_shared, kernelHalf_shared
-/
import RincOs.Proofs.LargePages
import RincOs.Proofs.TableLevels

namespace RincOs

open RadixForest LawfulFrameAlloc

variable {A : Type} [PageTableFrameAlloc A] [LawfulFrameAlloc A]

/-- A machine after `init_kernel`, before any address space is created.  Of the
tables the bootloader built we ask that no frame is used at two levels and that
the allocator does not hand them out. -/
structure AdoptedKernel (s : Sys A) (root : PhysAddr) : Prop where
  handle : s.kasHandle = some .kas
  kas : s.kas = some ⟨root⟩
  rootFrame : IsFrame root
  unused : ∀ a, ¬ Used s.toMachine a
  valid : Valid s.ptAlloc
  oneLevel : ∀ {l l' t}, TableAt s.mem root l t → TableAt s.mem root l' t → l = l'
  reserved : ∀ {t}, IsTable s.mem root t → NeverGiven s.ptAlloc t

/-- Entries that point to a table lead one level down. -/
theorem tableAt_of_links {m : Mem} {root t : PhysAddr} {l : Nat} {i : Fin entryCount}
    (above : 0 < l) (known : TableAt m root (l + 1) t) (links : LinksAt l (readEntry m t i)) :
    TableAt m root l (readEntry m t i &&& addrMask) := by
  have inner : l ≠ 3 → isLarge (readEntry m t i) = false := links.2.resolve_left
  cases known with
  | pml4 => exact .pdpt i links.1
  | pdpt j entry => exact .inner (.pdpt j entry) (by decide) i links.1 (by simp [inner])
  | inner higher bounded j entry small =>
      obtain rfl : l = 1 := by omega
      exact .inner (.inner higher bounded j entry small) (by decide) i links.1 (by simp [inner])

/-- The levels at the start are those of the processor's walk. -/
theorem AdoptedKernel.leveled {s : Sys A} {root : PhysAddr} (adopted : AdoptedKernel s root) :
    Leveled (TableAt s.mem root) s where
  valid := adopted.valid
  kernel := by simp [adopted.handle]
  roots := by
    rintro (_ | a) live
    · rw [Machine.asX86, adopted.kas]
      exact .pml4
    · exact absurd live (adopted.unused a)
  isFrame known := IsTable.isFrame adopted.rootFrame ⟨_, known⟩
  unique := adopted.oneLevel
  reserved known := adopted.reserved ⟨_, known⟩
  below := tableAt_of_links

/-- Equal PML4 entries give equal translations. -/
theorem translate_shared {k : Machine} {one two : AddressSpace} {v : VirtAddr}
    (same : readEntry k.mem (k.asX86 one).pml4Phys (pml4Index v) =
      readEntry k.mem (k.asX86 two).pml4Phys (pml4Index v)) :
    translate k one v = translate k two v := by
  simp only [translate, walkToPt, same]

/-- Whatever calls were made before and after the creation of a space, it agrees
with the kernel at every upper-half address whose PML4 slot the kernel had filled
when the space was created. -/
theorem kernelHalf_shared {start s₁ s₂ s : Sys A} {root : PhysAddr} {cpu : Cpu}
    {earlier later : List Event} {a : Fin maxAddressSpaces} {v : VirtAddr}
    (adopted : AdoptedKernel start root) (before : Runs AnyCall start earlier s₁)
    (created : (addressSpaceNew cpu).exec s₁ = (.ok (.slot a), s₂))
    (after : Runs AnyCall s₂ later s) (upper : kernelPml4Start ≤ pml4Index v)
    (filled : present (readEntry s₁.mem root (pml4Index v)) = true) :
    translate s.toMachine (.slot a) v = translate s.toMachine .kas v := by
  obtain ⟨level₁, keeps₁⟩ := anyRun_leveled adopted.leveled before
  obtain ⟨level₂, keeps₂, shares⟩ := addressSpaceNew_leveled cpu keeps₁.leveled
  rw [created] at keeps₂ shares
  obtain ⟨level₃, keeps₃⟩ := anyRun_leveled keeps₂.leveled after
  obtain ⟨live, same⟩ := shares _ rfl
  have kernelLive : LiveSpace s₁.toMachine .kas := trivial
  have kernel : (s₁.asX86 .kas).pml4Phys = root := by
    rw [keeps₁.roots .kas trivial, Machine.asX86, adopted.kas]
    rfl
  rw [← kernel] at filled
  have shared : readEntry s₂.mem (s₂.asX86 (.slot a)).pml4Phys (pml4Index v) =
      readEntry s₂.mem (s₂.asX86 .kas).pml4Phys (pml4Index v) := by
    rw [same _ upper, keeps₂.roots .kas kernelLive]
  -- the entry was present when it was copied, so both copies stay as they are
  have isPresent : present (readEntry s₂.mem (s₂.asX86 .kas).pml4Phys (pml4Index v)) = true := by
    rw [keeps₂.rootEntry keeps₁.leveled kernelLive filled, filled]
  have created := keeps₃.rootEntry keeps₂.leveled live (by rw [shared, isPresent])
  have adopter := keeps₃.rootEntry keeps₂.leveled (keeps₂.live .kas kernelLive) isPresent
  apply translate_shared
  rw [created, adopter, shared]

/-! ### A kernel mapping in a new PML4 slot -/

/-- The bump allocator stays below 1 MiB. -/
theorem bumpAlloc_below {a a' : Recorded BumpAlloc} {m m' : Mem} {f : PhysAddr}
    (alloc : allocFrame4k a m = (some f, a', m')) : f.toNat < 0x100000 := by
  have inner := (recorded_alloc alloc).1
  rcases bumpAlloc_cases a.inner m with ⟨bound, done⟩ | done
  · obtain ⟨rfl, -⟩ : bumpFrame a.inner.used = f ∧ _ := by simpa [done] using inner
    rw [toNat_bumpFrame bound]
    omega
  · simp [done] at inner

theorem adoptedKernel_adoptedSys : AdoptedKernel adoptedSys 0x100000 where
  handle := rfl
  kas := rfl
  rootFrame := by decide
  unused _ used := nomatch used
  valid := trivial
  oneLevel one two := by
    rcases table_reclaimMem one with ⟨rfl, rfl⟩ | ⟨rfl, rfl⟩ <;>
      rcases table_reclaimMem two with ⟨rfl, same⟩ | ⟨rfl, same⟩
    · rfl
    · exact absurd same (by decide)
    · exact absurd same (by decide)
    · rfl
  reserved := by
    rintro t ⟨l, table⟩ _ _ _ _ - alloc
    have low := bumpAlloc_below alloc
    rcases table_reclaimMem table with ⟨-, rfl⟩ | ⟨-, rfl⟩ <;> revert low <;> decide

/-- The machine after one address space was created. -/
def inheritedSys : Sys (Recorded BumpAlloc) := ((Call.new bootCpu).exec adoptedSys).2

/-- A page the kernel maps below a slot it had filled is seen in the space. -/
theorem inheritedSys_shares :
    let s := ((Call.map .kas 0xffff800040000000 0x5000 .read).exec inheritedSys).2
    translate s.toMachine (.slot 0) 0xffff800040000000 =
      translate s.toMachine .kas 0xffff800040000000 :=
  kernelHalf_shared adoptedKernel_adoptedSys .start
    (show (addressSpaceNew bootCpu).exec adoptedSys = (.ok (.slot 0), inheritedSys) from rfl)
    (Runs.start.extend (.map .kas 0xffff800040000000 0x5000 .read)
      ⟨trivial, by decide +kernel⟩) (by decide) (by decide +kernel)

/-- A page the kernel maps in a slot that was empty is not. -/
theorem kernel_map_not_propagated :
    ∃ history s, Runs AnyCall adoptedSys history s ∧ Used s.toMachine 0 ∧
      isCanonical 0xffffff8000000000 = true ∧
      kernelPml4Start ≤ pml4Index 0xffffff8000000000 ∧
      translate s.toMachine .kas 0xffffff8000000000 = .ok 0x5000 ∧
      translate s.toMachine (.slot 0) 0xffffff8000000000 = .error .notMapped := by
  have created : Runs AnyCall adoptedSys _ inheritedSys :=
    Runs.start.extend (.new bootCpu) trivial
  exact ⟨_, _, created.extend (.map .kas 0xffffff8000000000 0x5000 .read)
    ⟨trivial, by decide +kernel⟩, by decide +kernel, by decide, by decide, by decide +kernel,
    by decide +kernel⟩

end RincOs
