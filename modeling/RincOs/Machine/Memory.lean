/-
Module: RincOs.Machine.Memory
Purpose: Physical memory as the kernel sees it through the higher-half direct
  map, one 64-bit word per 8-byte address, and the 4 KiB frames it is cut into.
Trusted boundary: the direct map shows physical address `p` at `p + hhdm_offset`
Main exports:
  Word, PhysAddr, VirtAddr, Mem, IsFrame, InFrame, entryAddr, readEntry,
  writeEntry, zeroFrame, copyEntries
-/
import RincOs.Library.WordField
import Mathlib.Logic.Function.Basic

namespace RincOs

abbrev Word := BitVec 64

/-- `hal::mmu::PhysAddr`. -/
abbrev PhysAddr := Word

/-- `hal::mmu::VirtAddr`. -/
abbrev VirtAddr := Word

/-- Physical memory, indexed by the physical address of an 8-byte word.  Every
access of the kernel to a page table or a frame goes through
`phys_to_virt(p) = p + hhdm_offset`, a bijection on 64-bit addresses, so the
direct-map offset does not appear in the index. -/
abbrev Mem := Word → Word

def pageSize : Word := 4096

/-- `ENTRY_COUNT`: 64-bit entries of one table. -/
abbrev entryCount : Nat := 512

/-- `ADDR_MASK`: the frame field of a page-table entry. -/
def addrMask : Word := 0x000ffffffffff000

theorem addrMask_eq_fieldMask : addrMask = WordField.fieldMask 64 12 52 := by
  decide

/-- A 4 KiB frame address that fits the frame field of an entry. -/
def IsFrame (f : PhysAddr) : Prop := f &&& addrMask = f

instance (f : PhysAddr) : Decidable (IsFrame f) :=
  inferInstanceAs (Decidable (f &&& addrMask = f))

theorem isFrame_iff (f : PhysAddr) :
    IsFrame f ↔ f.toNat % 4096 = 0 ∧ f.toNat < 2 ^ 52 := by
  rw [IsFrame, addrMask_eq_fieldMask]
  exact WordField.and_fieldMask_eq_self_iff f (by decide) (by decide)

theorem isFrame_and_addrMask (x : Word) : IsFrame (x &&& addrMask) := by
  rw [IsFrame, BitVec.and_assoc, BitVec.and_self]

/-- Address `a` lies in the 4 KiB starting at `f`. -/
def InFrame (f : PhysAddr) (a : Word) : Prop := a - f < pageSize

instance (f : PhysAddr) (a : Word) : Decidable (InFrame f a) :=
  inferInstanceAs (Decidable (a - f < pageSize))

theorem inFrame_iff {f : PhysAddr} (frame : IsFrame f) (a : Word) :
    InFrame f a ↔ a.toNat / 4096 = f.toNat / 4096 := by
  obtain ⟨aligned, bounded⟩ := (isFrame_iff f).mp frame
  rw [InFrame, BitVec.lt_def, BitVec.toNat_sub]
  have size : pageSize.toNat = 4096 := rfl
  have range := a.isLt
  rw [size]
  omega

/-- Two frames that share an address are the same frame. -/
theorem frame_eq_of_inFrame {f g : PhysAddr} (one : IsFrame f) (two : IsFrame g)
    {a : Word} (inOne : InFrame f a) (inTwo : InFrame g a) : f = g := by
  rw [inFrame_iff one] at inOne
  rw [inFrame_iff two] at inTwo
  have alignedOne := ((isFrame_iff f).mp one).1
  have alignedTwo := ((isFrame_iff g).mp two).1
  apply BitVec.eq_of_toNat_eq
  omega

/-- Address of entry `i` of the table at `p`. -/
def entryAddr (p : PhysAddr) (i : Fin entryCount) : Word :=
  p + BitVec.ofNat 64 (8 * i.val)

theorem toNat_entryAddr {p : PhysAddr} (frame : IsFrame p) (i : Fin entryCount) :
    (entryAddr p i).toNat = p.toNat + 8 * i.val := by
  obtain ⟨aligned, bounded⟩ := (isFrame_iff p).mp frame
  have index : i.val < 512 := i.isLt
  rw [entryAddr, BitVec.toNat_add, BitVec.toNat_ofNat]
  omega

theorem inFrame_entryAddr (p : PhysAddr) (i : Fin entryCount) :
    InFrame p (entryAddr p i) := by
  have index : i.val < 512 := i.isLt
  have shifted : entryAddr p i - p = BitVec.ofNat 64 (8 * i.val) := by
    rw [entryAddr, BitVec.add_comm, BitVec.add_sub_cancel]
  rw [InFrame, shifted, BitVec.lt_def, BitVec.toNat_ofNat]
  have size : pageSize.toNat = 4096 := rfl
  omega

theorem inFrame_entryAddr_iff {p q : PhysAddr} (one : IsFrame p) (two : IsFrame q)
    (i : Fin entryCount) : InFrame q (entryAddr p i) ↔ q = p := by
  constructor
  · intro inside
    exact frame_eq_of_inFrame two one inside (inFrame_entryAddr p i)
  · rintro rfl
    exact inFrame_entryAddr q i

theorem entryAddr_inj {p q : PhysAddr} (one : IsFrame p) (two : IsFrame q)
    {i j : Fin entryCount} : entryAddr p i = entryAddr q j ↔ p = q ∧ i = j := by
  constructor
  · intro same
    have frames : p = q :=
      frame_eq_of_inFrame one two (inFrame_entryAddr p i) (same ▸ inFrame_entryAddr q j)
    subst q
    have numbers := congrArg BitVec.toNat same
    rw [toNat_entryAddr one, toNat_entryAddr one] at numbers
    exact ⟨rfl, Fin.ext (by omega)⟩
  · rintro ⟨rfl, rfl⟩
    rfl

/-- `table_mut(p)[i]`, read. -/
def readEntry (m : Mem) (p : PhysAddr) (i : Fin entryCount) : Word :=
  m (entryAddr p i)

/-- `table_mut(p)[i] = w`. -/
def writeEntry (m : Mem) (p : PhysAddr) (i : Fin entryCount) (w : Word) : Mem :=
  Function.update m (entryAddr p i) w

/-- `zero_frame(p)`: 512 zero words. -/
def zeroFrame (m : Mem) (p : PhysAddr) : Mem :=
  fun a => if InFrame p a then 0 else m a

/-- `copy_nonoverlapping(src.add(start), dst.add(start), ENTRY_COUNT - start)`
on the tables at `src` and `dst`. -/
def copyEntries (m : Mem) (src dst : PhysAddr) (start : Fin entryCount) : Mem :=
  fun a =>
    if InFrame dst a ∧ BitVec.ofNat 64 (8 * start.val) ≤ a - dst then
      m (src + (a - dst))
    else m a

theorem writeEntry_apply (m : Mem) (p : PhysAddr) (i : Fin entryCount) (w a : Word) :
    writeEntry m p i w a = if a = entryAddr p i then w else m a := by
  rw [writeEntry, Function.update_apply]

@[simp] theorem readEntry_writeEntry_self (m : Mem) (p : PhysAddr)
    (i : Fin entryCount) (w : Word) : readEntry (writeEntry m p i w) p i = w := by
  rw [readEntry, writeEntry, Function.update_self]

theorem readEntry_writeEntry_ne {m : Mem} {p q : PhysAddr} {i j : Fin entryCount}
    {w : Word} (one : IsFrame p) (two : IsFrame q) (apart : q ≠ p ∨ j ≠ i) :
    readEntry (writeEntry m p i w) q j = readEntry m q j := by
  rw [readEntry, writeEntry_apply, if_neg, readEntry]
  intro same
  obtain ⟨rfl, rfl⟩ := (entryAddr_inj two one).mp same
  simp at apart

@[simp] theorem readEntry_zeroFrame_self (m : Mem) (p : PhysAddr)
    (i : Fin entryCount) : readEntry (zeroFrame m p) p i = 0 := by
  rw [readEntry, zeroFrame, if_pos (inFrame_entryAddr p i)]

theorem readEntry_zeroFrame_ne {m : Mem} {p q : PhysAddr} {i : Fin entryCount}
    (one : IsFrame p) (two : IsFrame q) (apart : q ≠ p) :
    readEntry (zeroFrame m p) q i = readEntry m q i := by
  rw [readEntry, zeroFrame, if_neg, readEntry]
  intro inside
  exact apart ((inFrame_entryAddr_iff two one i).mp inside).symm

end RincOs
