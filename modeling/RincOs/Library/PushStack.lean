/-
Module: RincOs.Library.PushStack
Purpose: A stack that grows towards lower addresses, read as a list whose head is
  the cell at the stack pointer.
Trusted boundary: none
Main exports:
  Holds, Holds.congr, cell_ne_below, Holds.push
-/
import Mathlib.Data.BitVec
import Mathlib.Tactic.LinearCombination

namespace PushStack

variable {w : Nat} {α : Type} {cell sp : BitVec w} {mem mem' : BitVec w → α}
variable {x : α} {xs : List α}

/-- From `sp` up, `mem` holds the list, one element per `cell`. -/
def Holds (cell : BitVec w) (mem : BitVec w → α) : BitVec w → List α → Prop
  | _, [] => True
  | sp, x :: xs => mem sp = x ∧ Holds cell mem (sp + cell) xs

/-- Only the cells of the list matter. -/
theorem Holds.congr (holds : Holds cell mem sp xs)
    (same : ∀ i < xs.length, mem' (sp + BitVec.ofNat w i * cell) =
      mem (sp + BitVec.ofNat w i * cell)) :
    Holds cell mem' sp xs := by
  induction xs generalizing sp with
  | nil => trivial
  | cons x xs inductionHypothesis =>
      obtain ⟨first, rest⟩ := holds
      constructor
      · have here := same 0 (Nat.succ_pos _)
        simp only [BitVec.zero_mul, BitVec.add_zero] at here
        exact here.trans first
      · apply inductionHypothesis rest
        intro i inside
        have next : sp + cell + BitVec.ofNat w i * cell =
            sp + BitVec.ofNat w (i + 1) * cell := by
          rw [BitVec.ofNat_add, BitVec.add_mul, BitVec.one_mul]
          ac_rfl
        rw [next]
        exact same (i + 1) (Nat.succ_lt_succ inside)

/-- The cells at and above the stack pointer are not the one below it. -/
theorem cell_ne_below {i : Nat} (positive : 0 < cell.toNat)
    (fits : (i + 1) * cell.toNat < 2 ^ w) : sp + BitVec.ofNat w i * cell ≠ sp - cell := by
  intro same
  have next : BitVec.ofNat w (i + 1) = BitVec.ofNat w i + 1 := BitVec.ofNat_add i 1
  have zero : BitVec.ofNat w (i + 1) * cell = 0 := by
    linear_combination same + cell * next
  have number := congrArg BitVec.toNat zero
  rw [BitVec.toNat_mul, BitVec.toNat_ofNat, Nat.mod_mul_mod, Nat.mod_eq_of_lt fits] at number
  have nonzero : 0 < (i + 1) * cell.toNat := Nat.mul_pos (Nat.succ_pos i) positive
  exact nonzero.ne' number

theorem Holds.push (holds : Holds cell mem sp xs) (positive : 0 < cell.toNat)
    (fits : xs.length * cell.toNat < 2 ^ w) (x : α) :
    Holds cell (Function.update mem (sp - cell) x) (sp - cell) (x :: xs) := by
  refine ⟨Function.update_self _ _ _, ?_⟩
  rw [BitVec.sub_add_cancel]
  apply holds.congr
  intro i inside
  apply Function.update_of_ne
  apply cell_ne_below positive
  exact Nat.lt_of_le_of_lt (Nat.mul_le_mul_right _ inside) fits

end PushStack
