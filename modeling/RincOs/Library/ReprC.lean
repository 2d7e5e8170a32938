/-
Module: RincOs.Library.ReprC
Purpose: Structures laid out member after member, each at the next offset that is
  a multiple of its alignment, and the little-endian bytes they have in memory.
  A read anywhere inside the image is computed from the members it touches.
Trusted boundary: none
Main exports:
  toBytes, ofBytes, ofBytes_toBytes, Member, padding, endOf, structSize, image,
  readLE, readLE_add, readLE_member
-/
import Mathlib.Tactic.Ring
import Mathlib.Data.List.Basic

namespace ReprC

/-! ### Little-endian numbers -/

/-- The low `n` bytes of `x`, the lowest first. -/
def toBytes : Nat → Nat → List (BitVec 8)
  | 0, _ => []
  | n + 1, x => BitVec.ofNat 8 x :: toBytes n (x / 256)

/-- The number with the given bytes. -/
def ofBytes : List (BitVec 8) → Nat
  | [] => 0
  | b :: bytes => b.toNat + 256 * ofBytes bytes

@[simp] theorem length_toBytes (n x : Nat) : (toBytes n x).length = n := by
  induction n generalizing x with
  | zero => rfl
  | succ n inductionHypothesis => rw [toBytes, List.length_cons, inductionHypothesis]

theorem ofBytes_toBytes (n x : Nat) : ofBytes (toBytes n x) = x % 256 ^ n := by
  induction n generalizing x with
  | zero => rw [toBytes, ofBytes, pow_zero, Nat.mod_one]
  | succ n inductionHypothesis =>
      rw [toBytes, ofBytes, inductionHypothesis, BitVec.toNat_ofNat]
      have split : x % (256 * 256 ^ n) = x % 256 + 256 * (x / 256 % 256 ^ n) := Nat.mod_mul
      rw [pow_succ' 256, split]

theorem ofBytes_append (low high : List (BitVec 8)) :
    ofBytes (low ++ high) = ofBytes low + 256 ^ low.length * ofBytes high := by
  induction low with
  | nil => simp [ofBytes]
  | cons b low inductionHypothesis =>
      rw [List.cons_append, ofBytes, inductionHypothesis, ofBytes, List.length_cons]
      ring

/-- The bytes of a number from the `k`th on are those of the number shifted. -/
theorem drop_toBytes (k n x : Nat) : (toBytes n x).drop k = toBytes (n - k) (x / 256 ^ k) := by
  induction k generalizing n x with
  | zero => simp
  | succ k inductionHypothesis =>
      cases n with
      | zero => simp [toBytes]
      | succ n =>
          rw [toBytes, List.drop_succ_cons, inductionHypothesis, Nat.succ_sub_succ,
            Nat.div_div_eq_div_mul, pow_succ']

theorem take_toBytes {k n : Nat} (short : k ≤ n) (x : Nat) :
    (toBytes n x).take k = toBytes k x := by
  induction k generalizing n x with
  | zero => rfl
  | succ k inductionHypothesis =>
      cases n with
      | zero => omega
      | succ n =>
          rw [toBytes, List.take_succ_cons, inductionHypothesis (Nat.le_of_succ_le_succ short),
            toBytes]

/-! ### Layout -/

/-- A member of integer type with its value. -/
structure Member where
  size : Nat
  align : Nat
  value : Nat

/-- An integer of `w` bits, aligned to its size. -/
def Member.ofWord {w : Nat} (x : BitVec w) : Member :=
  { size := w / 8, align := w / 8, value := x.toNat }

/-- An integer of `w` bits in a packed structure. -/
def Member.packed {w : Nat} (x : BitVec w) : Member :=
  { size := w / 8, align := 1, value := x.toNat }

/-- The bytes left out at position `pos` so that the next one is aligned. -/
def padding (align pos : Nat) : Nat := (align - pos % align) % align

/-- Where the last of the members ends when the first is placed from `pos` on. -/
def endOf (pos : Nat) : List Member → Nat
  | [] => pos
  | m :: members => endOf (pos + padding m.align pos + m.size) members

/-- The size of the structure with the given alignment. -/
def structSize (align : Nat) (members : List Member) : Nat :=
  endOf 0 members + padding align (endOf 0 members)

/-- The bytes in front of position `pos + n`, from `pos` on, that belong to no
member; `pad` says what they are. -/
def gap (pad : Nat → BitVec 8) (pos n : Nat) : List (BitVec 8) :=
  (List.range' pos n).map pad

/-- The bytes of the members placed from `pos` on. -/
def image (pad : Nat → BitVec 8) (pos : Nat) : List Member → List (BitVec 8)
  | [] => []
  | m :: members =>
      gap pad pos (padding m.align pos) ++ (toBytes m.size m.value ++
        image pad (pos + padding m.align pos + m.size) members)

/-- The bytes of the whole structure. -/
def structImage (pad : Nat → BitVec 8) (align : Nat) (members : List Member) :
    List (BitVec 8) :=
  image pad 0 members ++ gap pad (endOf 0 members) (padding align (endOf 0 members))

variable {pad : Nat → BitVec 8}

/-- A packed member follows without padding. -/
theorem endOf_packed {w : Nat} (pos : Nat) (x : BitVec w) (members : List Member) :
    endOf pos (.packed x :: members) = endOf (pos + w / 8) members := by
  simp [endOf, padding, Member.packed, Nat.mod_one]

theorem length_image (pos : Nat) (members : List Member) :
    pos + (image pad pos members).length = endOf pos members := by
  induction members generalizing pos with
  | nil => rfl
  | cons m members inductionHypothesis =>
      rw [endOf, ← inductionHypothesis, image, gap]
      simp only [List.length_append, List.length_map, List.length_range', length_toBytes]
      omega

theorem image_append (pos : Nat) (before after : List Member) :
    image pad pos (before ++ after) =
      image pad pos before ++ image pad (endOf pos before) after := by
  induction before generalizing pos with
  | nil => rfl
  | cons m before inductionHypothesis =>
      rw [List.cons_append, image, inductionHypothesis, image, endOf]
      simp only [List.append_assoc]

/-- The image has the size of the structure. -/
theorem length_structImage (align : Nat) (members : List Member) :
    (structImage pad align members).length = structSize align members := by
  have length : 0 + (image pad 0 members).length = _ := length_image 0 members
  rw [structImage, structSize, List.length_append, gap, List.length_map, List.length_range']
  omega

/-! ### Reading -/

/-- The `n`-byte number at an offset. -/
def readLE (bytes : List (BitVec 8)) (offset n : Nat) : Nat :=
  ofBytes ((bytes.drop offset).take n)

/-- A read in two parts. -/
theorem readLE_add {bytes : List (BitVec 8)} {offset a b : Nat}
    (inside : offset + a ≤ bytes.length) :
    readLE bytes offset (a + b) =
      readLE bytes offset a + 256 ^ a * readLE bytes (offset + a) b := by
  have length : ((bytes.drop offset).take a).length = a := by
    rw [List.length_take, List.length_drop]
    omega
  rw [readLE, List.take_add, ofBytes_append, length, List.drop_drop, readLE, readLE]

/-- A read inside a number that stands behind the bytes `front`. -/
theorem readLE_number {front rest : List (BitVec 8)} {size value k n : Nat}
    (inside : k + n ≤ size) :
    readLE (front ++ (toBytes size value ++ rest)) (front.length + k) n =
      value / 256 ^ k % 256 ^ n := by
  have short : k ≤ (toBytes size value).length := by
    rw [length_toBytes]
    omega
  have enough : n ≤ ((toBytes size value).drop k).length := by
    rw [List.length_drop, length_toBytes]
    omega
  rw [readLE, ← List.drop_drop, List.drop_left, List.drop_append_of_le_length short,
    List.take_append_of_le_length enough, drop_toBytes, take_toBytes (by omega),
    ofBytes_toBytes]

/-- What stands in front of the member `m`, the member, and what follows. -/
theorem structImage_split (align : Nat) (before : List Member) (m : Member)
    (after : List Member) :
    ∃ front rest, front.length = endOf 0 before + padding m.align (endOf 0 before) ∧
      structImage pad align (before ++ m :: after) =
        front ++ (toBytes m.size m.value ++ rest) := by
  obtain ⟨last, isLast⟩ : ∃ last, last = endOf 0 (before ++ m :: after) := ⟨_, rfl⟩
  refine ⟨image pad 0 before ++ gap pad (endOf 0 before) (padding m.align (endOf 0 before)),
    image pad (endOf 0 before + padding m.align (endOf 0 before) + m.size) after ++
      gap pad last (padding align last), ?_, ?_⟩
  · have length : 0 + (image pad 0 before).length = _ := length_image 0 before
    rw [List.length_append, gap, List.length_map, List.length_range']
    omega
  · rw [structImage, image_append, image, isLast]
    simp only [List.append_assoc]

/-- A read inside the member `m`, from its `k`th byte on. -/
theorem readLE_member {align k n : Nat} (before : List Member) (m : Member)
    (after : List Member) (inside : k + n ≤ m.size) :
    readLE (structImage pad align (before ++ m :: after))
        (endOf 0 before + padding m.align (endOf 0 before) + k) n =
      m.value / 256 ^ k % 256 ^ n := by
  obtain ⟨front, rest, length, split⟩ := @structImage_split pad align before m after
  rw [split, ← length]
  exact readLE_number inside

end ReprC
