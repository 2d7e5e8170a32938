/-
Module: RincOs.Library.WordField
Purpose: Contiguous bit fields of machine words: the mask of a field, reading
  a field out of a word, and composing a word from a field and separate flags.
Trusted boundary: none
Main exports:
  fieldMask, toNat_and_lowMask, toNat_slice, and_not_eq_self, and_fieldMask_eq_self_iff,
  toNat_or_shiftLeft, field_or_and_self, field_or_and_separate, or_field_inj
-/
import Mathlib.Data.Nat.Bitwise

namespace WordField

variable {w : Nat}

/-- The mask selecting bits `lo`, …, `hi - 1`. -/
def fieldMask (w lo hi : Nat) : BitVec w :=
  BitVec.ofNat w (2 ^ hi - 2 ^ lo)

theorem testBit_field {lo hi : Nat} (ordered : lo ≤ hi) (i : Nat) :
    (2 ^ hi - 2 ^ lo).testBit i = decide (lo ≤ i ∧ i < hi) := by
  have shifted : 2 ^ hi - 2 ^ lo = (2 ^ (hi - lo) - 1) <<< lo := by
    rw [Nat.shiftLeft_eq, Nat.sub_mul, ← Nat.pow_add, Nat.one_mul,
      Nat.sub_add_cancel ordered]
  rw [shifted, Nat.testBit_shiftLeft, Nat.testBit_two_pow_sub_one]
  by_cases low : lo ≤ i
  · have same : i - lo < hi - lo ↔ i < hi := by omega
    simp [low, same]
  · simp [low]

theorem getLsbD_fieldMask {lo hi : Nat} (ordered : lo ≤ hi) (inside : hi ≤ w)
    (i : Nat) :
    (fieldMask w lo hi).getLsbD i = decide (lo ≤ i ∧ i < hi) := by
  rw [fieldMask, BitVec.getLsbD_ofNat, testBit_field ordered]
  by_cases bounded : i < w
  · simp [bounded]
  · have beyond : ¬ i < hi := by omega
    simp [bounded, beyond]

/-- Masking with the low `k` bits is reduction modulo `2 ^ k`. -/
theorem toNat_and_lowMask (x : BitVec w) {k : Nat} (inside : k ≤ w) :
    (x &&& BitVec.ofNat w (2 ^ k - 1)).toNat = x.toNat % 2 ^ k := by
  have small : 2 ^ k - 1 < 2 ^ w := by
    have power : 2 ^ k ≤ 2 ^ w := Nat.pow_le_pow_right (by decide) inside
    have positive : 0 < 2 ^ k := Nat.two_pow_pos k
    omega
  rw [BitVec.toNat_and, BitVec.toNat_ofNat, Nat.mod_eq_of_lt small,
    Nat.and_two_pow_sub_one_eq_mod]

/-- A `k`-bit slice read at bit position `lo`. -/
theorem toNat_slice (x : BitVec w) (lo : Nat) {k : Nat} (inside : k ≤ w) :
    ((x >>> lo) &&& BitVec.ofNat w (2 ^ k - 1)).toNat =
      x.toNat / 2 ^ lo % 2 ^ k := by
  rw [toNat_and_lowMask _ inside, BitVec.toNat_ushiftRight,
    Nat.shiftRight_eq_div_pow]

/-- Clearing bits that are clear changes nothing. -/
theorem and_not_eq_self {x mask : BitVec w} (clear : x &&& mask = 0) : x &&& ~~~mask = x := by
  calc
    x &&& ~~~mask = (x &&& mask) ||| (x &&& ~~~mask) := by
      rw [clear]
      exact BitVec.zero_or.symm
    _ = x &&& (mask ||| ~~~mask) := BitVec.and_or_distrib_left.symm
    _ = x &&& BitVec.allOnes w := by simp
    _ = x := BitVec.and_allOnes

/-- Masking with a field keeps the number below `2 ^ hi` and rounds it down to
a multiple of `2 ^ lo`. -/
theorem toNat_and_fieldMask (x : BitVec w) {lo hi : Nat}
    (ordered : lo ≤ hi) (inside : hi ≤ w) :
    (x &&& fieldMask w lo hi).toNat = x.toNat % 2 ^ hi / 2 ^ lo * 2 ^ lo := by
  rw [← Nat.shiftRight_eq_div_pow, ← Nat.shiftLeft_eq]
  apply Nat.eq_of_testBit_eq
  intro i
  rw [BitVec.testBit_toNat, BitVec.getLsbD_and,
    getLsbD_fieldMask ordered inside, Nat.testBit_shiftLeft,
    Nat.testBit_shiftRight, Nat.testBit_mod_two_pow, BitVec.testBit_toNat]
  by_cases low : lo ≤ i
  · rw [Nat.add_sub_cancel' low, Bool.and_comm]
    simp [low]
  · simp [low]

/-- A word is unchanged by a field mask exactly when all its set bits lie in
the field. -/
theorem and_fieldMask_eq_self_iff (x : BitVec w) {lo hi : Nat}
    (ordered : lo ≤ hi) (inside : hi ≤ w) :
    x &&& fieldMask w lo hi = x ↔ x.toNat % 2 ^ lo = 0 ∧ x.toNat < 2 ^ hi := by
  rw [← BitVec.toNat_inj, toNat_and_fieldMask x ordered inside]
  constructor
  · intro same
    have positive : 0 < 2 ^ hi := Nat.two_pow_pos hi
    have reduced : x.toNat % 2 ^ hi / 2 ^ lo * 2 ^ lo ≤ x.toNat % 2 ^ hi :=
      Nat.div_mul_le_self _ _
    have bounded : x.toNat % 2 ^ hi < 2 ^ hi := Nat.mod_lt _ positive
    refine ⟨?_, by omega⟩
    rw [← same]
    exact Nat.mul_mod_left _ _
  · rintro ⟨aligned, bounded⟩
    rw [Nat.mod_eq_of_lt bounded]
    exact Nat.div_mul_cancel (Nat.dvd_of_mod_eq_zero aligned)

/-- A field placed above a smaller number. -/
theorem toNat_or_shiftLeft {x y : BitVec w} {k : Nat} (low : x.toNat < 2 ^ k)
    (fits : y.toNat * 2 ^ k < 2 ^ w) :
    (x ||| y <<< k).toNat = x.toNat + y.toNat * 2 ^ k := by
  rw [BitVec.toNat_or, BitVec.toNat_shiftLeft, Nat.shiftLeft_eq, Nat.mod_eq_of_lt fits,
    Nat.or_comm, ← Nat.shiftLeft_eq, ← Nat.shiftLeft_add_eq_or_of_lt low, Nat.shiftLeft_eq,
    Nat.add_comm]

/-- Flags outside a field do not disturb the field. -/
theorem field_or_and_self {x mask flags : BitVec w}
    (separate : flags &&& mask = 0#w) :
    ((x &&& mask) ||| flags) &&& mask = x &&& mask := by
  rw [BitVec.and_or_distrib_right, separate, BitVec.and_assoc, BitVec.and_self,
    BitVec.or_zero]

/-- A field does not disturb the bits outside it. -/
theorem field_or_and_separate {x mask flags bit : BitVec w}
    (separate : mask &&& bit = 0#w) :
    ((x &&& mask) ||| flags) &&& bit = flags &&& bit := by
  rw [BitVec.and_or_distrib_right, BitVec.and_assoc, separate, BitVec.and_zero,
    BitVec.zero_or]

/-- Two words outside a field are equal if they are equal once the same field
contents are added to both. -/
theorem or_field_inj {a b x mask : BitVec w} (left : a &&& mask = 0#w)
    (right : b &&& mask = 0#w) :
    a ||| (x &&& mask) = b ||| (x &&& mask) ↔ a = b := by
  constructor
  · intro same
    apply BitVec.eq_of_getLsbD_eq
    intro i _
    have whole := congrArg (fun y => y.getLsbD i) same
    have leftBit := congrArg (fun y => y.getLsbD i) left
    have rightBit := congrArg (fun y => y.getLsbD i) right
    simp only [BitVec.getLsbD_or, BitVec.getLsbD_and, BitVec.getLsbD_zero]
      at whole leftBit rightBit
    revert whole leftBit rightBit
    cases a.getLsbD i <;> cases b.getLsbD i <;> cases mask.getLsbD i <;> simp
  · rintro rfl
    rfl

end WordField
