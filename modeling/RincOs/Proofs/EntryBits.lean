/-
Module: RincOs.Proofs.EntryBits
Purpose: What the entry encodings contain, bit by bit, and how the four table
  indices of a virtual address determine its page.
Trusted boundary: none
Main exports:
  leafWord, tableIndex_val, samePage_iff, LowerHalf, LowerHalf.canonical,
  present_leafWord, leafWord_and_addrMask, present_tableEntry,
  tableEntry_and_addrMask
-/
import RincOs.Arch.HardwareWalk

namespace RincOs

/-! ### Addresses -/

theorem aligned4k_iff (x : Word) : aligned4k x = true ↔ x.toNat % 4096 = 0 := by
  have low := WordField.toNat_and_lowMask x (k := 12) (by decide)
  have mask : pageSize - 1 = BitVec.ofNat 64 (2 ^ 12 - 1) := by decide
  rw [aligned4k, mask, beq_iff_eq, ← BitVec.toNat_inj, low]
  rfl

theorem tableIndex_val (v : VirtAddr) (shift : Nat) :
    (tableIndex v shift).val = v.toNat / 2 ^ shift % 512 :=
  WordField.toNat_slice v shift (k := 9) (by decide)

/-- The 4 KiB page number of an address. -/
def pageOf (v : VirtAddr) : Nat := v.toNat / 4096

/-- Below `2 ^ 48` the four indices determine the page. -/
theorem samePage_iff {v w : VirtAddr} (one : v.toNat < 2 ^ 48) (two : w.toNat < 2 ^ 48) :
    (pml4Index v = pml4Index w ∧ pdptIndex v = pdptIndex w ∧
      pdIndex v = pdIndex w ∧ ptIndex v = ptIndex w) ↔ pageOf v = pageOf w := by
  simp only [pml4Index, pdptIndex, pdIndex, ptIndex, Fin.ext_iff, tableIndex_val, pageOf]
  omega

/-- A lower-half address. -/
def LowerHalf (v : VirtAddr) : Prop := v.toNat < 2 ^ 47

instance (v : VirtAddr) : Decidable (LowerHalf v) :=
  inferInstanceAs (Decidable (v.toNat < 2 ^ 47))

theorem LowerHalf.pml4Index_lt {v : VirtAddr} (lower : LowerHalf v) :
    pml4Index v < kernelPml4Start := by
  have bound : v.toNat < 2 ^ 47 := lower
  rw [Fin.lt_def, pml4Index, tableIndex_val]
  change _ < 256
  omega

theorem isCanonical_iff (v : VirtAddr) :
    isCanonical v = true ↔ v.toNat < 2 ^ 47 ∨ 2 ^ 64 - 2 ^ 47 ≤ v.toNat := by
  have range := v.isLt
  have sign : ((v >>> 47) &&& 1).toNat = v.toNat / 2 ^ 47 % 2 :=
    WordField.toNat_slice v 47 (k := 1) (by decide)
  have upper : (v >>> 48).toNat = v.toNat / 2 ^ 48 := by
    rw [BitVec.toNat_ushiftRight, Nat.shiftRight_eq_div_pow]
  have zero : ((v >>> 47) &&& 1 == 0) = decide (v.toNat / 2 ^ 47 % 2 = 0) := by
    rw [← sign]
    exact Bool.eq_iff_iff.mpr (by simp [← BitVec.toNat_inj])
  have zeroNat : (0 : Word).toNat = 0 := rfl
  have onesNat : (0xffff : Word).toNat = 0xffff := rfl
  simp only [isCanonical, zero, decide_eq_true_eq]
  split <;> rw [beq_iff_eq, ← BitVec.toNat_inj, upper]
  · rw [zeroNat]
    omega
  · rw [onesNat]
    omega

theorem LowerHalf.canonical {v : VirtAddr} (lower : LowerHalf v) :
    isCanonical v = true :=
  (isCanonical_iff v).mpr (Or.inl lower)

/-- A canonical address is in the lower half or below a kernel slot. -/
theorem lowerHalf_or_kernel {v : VirtAddr} (canonical : isCanonical v = true) :
    LowerHalf v ∨ kernelPml4Start ≤ pml4Index v := by
  rcases (isCanonical_iff v).mp canonical with lower | upper
  · exact Or.inl lower
  · right
    have range := v.isLt
    have start : kernelPml4Start.val = 256 := rfl
    rw [Fin.le_def, pml4Index, tableIndex_val, start]
    omega

/-! ### Entries -/

theorem present_zero : present 0 = false := by decide

/-- The leaf entry for physical address `p` with the given flags. -/
def leafWord (nxe : Bool) (p : PhysAddr) (flags : MapFlags) : Word :=
  (p &&& addrMask) ||| flagsToPte nxe flags

/-- All that is used of the encoding of flags: the bits that may be set, and
for each right the bit that grants it. -/
theorem flagsToPte_bits (nxe : Bool) (flags : MapFlags) :
    flagsToPte nxe flags &&& addrMask = 0 ∧
      flagsToPte nxe flags &&& pteP = pteP ∧
      flagsToPte nxe flags &&& pteW =
        (if flags.contains .write then pteW else 0) ∧
      flagsToPte nxe flags &&& pteU =
        (if flags.contains .user then pteU else 0) ∧
      flagsToPte nxe flags &&& pteNx =
        (if !flags.contains .exec && nxe then pteNx else 0) := by
  simp only [flagsToPte]
  generalize flags.contains .write = write
  generalize flags.contains .user = user
  generalize flags.contains .global = global
  generalize flags.contains .exec = exec
  generalize flags.contains .uncached = uncached
  revert nxe write user global exec uncached
  decide

theorem leafWord_and_addrMask (nxe : Bool) (p : PhysAddr) (flags : MapFlags) :
    leafWord nxe p flags &&& addrMask = p &&& addrMask :=
  WordField.field_or_and_self (flagsToPte_bits nxe flags).1

theorem leafWord_and_bit {bit : Word} (separate : addrMask &&& bit = 0)
    (nxe : Bool) (p : PhysAddr) (flags : MapFlags) :
    leafWord nxe p flags &&& bit = flagsToPte nxe flags &&& bit :=
  WordField.field_or_and_separate separate

theorem present_leafWord (nxe : Bool) (p : PhysAddr) (flags : MapFlags) :
    present (leafWord nxe p flags) = true := by
  rw [present, leafWord_and_bit (by decide), (flagsToPte_bits nxe flags).2.1]
  decide

theorem tableEntry_and_addrMask (frame : PhysAddr) (user : Bool) :
    tableEntry frame user &&& addrMask = frame &&& addrMask := by
  apply WordField.field_or_and_self
  revert user
  decide

theorem tableEntry_and_bit {bit : Word} (separate : addrMask &&& bit = 0)
    (frame : PhysAddr) (user : Bool) :
    tableEntry frame user &&& bit =
      (if user then pteP ||| pteW ||| pteU else pteP ||| pteW) &&& bit :=
  WordField.field_or_and_separate separate

theorem present_tableEntry (frame : PhysAddr) (user : Bool) :
    present (tableEntry frame user) = true := by
  rw [present, tableEntry_and_bit (by decide)]
  revert user
  decide

/-- An entry as `ensure_table` writes it points to a table that is writable and
executable as far as this level is concerned, and is not a large page. -/
structure IsTableEntry (e : Word) : Prop where
  present : present e = true
  writable : e &&& pteW ≠ 0
  executable : e &&& pteNx = 0
  small : e &&& ptePs = 0

theorem isTableEntry_tableEntry (frame : PhysAddr) (user : Bool) :
    IsTableEntry (tableEntry frame user) := by
  refine ⟨present_tableEntry frame user, ?_, ?_, ?_⟩ <;>
    rw [tableEntry_and_bit (by decide)] <;> revert user <;> decide

theorem tableEntry_user (frame : PhysAddr) (user : Bool) :
    tableEntry frame user &&& pteU ≠ 0 ↔ user = true := by
  rw [tableEntry_and_bit (by decide)]
  revert user
  decide

end RincOs
