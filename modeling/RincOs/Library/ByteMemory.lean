/-
Module: RincOs.Library.ByteMemory
Purpose: Bytes in a memory of 64-bit words, little-endian, addressed by numbers.
Trusted boundary: none
Main exports:
  byteAt, setByte, readBytes, writeBytes, byteAt_setByte, word_ext, byteAt_writeBytes_outside,
  writeBytes_append, word_writeBytes, readBytes_congr, readBytes_writeBytes
-/
import RincOs.Library.TableFill

namespace ByteMemory

variable {m m' : BitVec 64 → BitVec 64}

/-- The address of the word that holds the byte at `a`. -/
def wordOf (a : Nat) : BitVec 64 := BitVec.ofNat 64 (a / 8 * 8)

def byteAt (m : BitVec 64 → BitVec 64) (a : Nat) : BitVec 8 :=
  (m (wordOf a) >>> (8 * (a % 8))).setWidth 8

/-- `word` with its byte `k` replaced. -/
def replaceByte (word : BitVec 64) (k : Nat) (b : BitVec 8) : BitVec 64 :=
  (word &&& ~~~((BitVec.allOnes 8).setWidth 64 <<< (8 * k))) ||| b.setWidth 64 <<< (8 * k)

def setByte (m : BitVec 64 → BitVec 64) (a : Nat) (b : BitVec 8) : BitVec 64 → BitVec 64 :=
  Function.update m (wordOf a) (replaceByte (m (wordOf a)) (a % 8) b)

/-- The `n` bytes from `a` on. -/
def readBytes (m : BitVec 64 → BitVec 64) (a n : Nat) : List (BitVec 8) :=
  (List.range' a n).map (byteAt m)

/-- The bytes written one after the other from `a` on. -/
def writeBytes (m : BitVec 64 → BitVec 64) : Nat → List (BitVec 8) → BitVec 64 → BitVec 64
  | _, [] => m
  | a, b :: bytes => writeBytes (setByte m a b) (a + 1) bytes

/-! ### One byte -/

theorem getLsbD_replaceByte (word : BitVec 64) (k : Nat) (b : BitVec 8) {i : Nat}
    (inside : i < 64) :
    (replaceByte word k b).getLsbD i =
      if 8 * k ≤ i ∧ i < 8 * k + 8 then b.getLsbD (i - 8 * k) else word.getLsbD i := by
  simp only [replaceByte, BitVec.getLsbD_or, BitVec.getLsbD_and, BitVec.getLsbD_not,
    BitVec.getLsbD_shiftLeft, BitVec.getLsbD_setWidth, BitVec.getLsbD_allOnes, inside,
    decide_true, Bool.true_and]
  rcases Nat.lt_or_ge i (8 * k) with below | reached
  · have outside : ¬ (8 * k ≤ i ∧ i < 8 * k + 8) := by omega
    simp [below, outside]
  · rcases Nat.lt_or_ge i (8 * k + 8) with within | above
    · have small : i - 8 * k < 8 := by omega
      have bounded : i - 8 * k < 64 := by omega
      simp [Nat.not_lt.mpr reached, reached, within, small, bounded]
    · have outside : ¬ (8 * k ≤ i ∧ i < 8 * k + 8) := by omega
      have large : ¬ i - 8 * k < 8 := by omega
      simp [outside, large, BitVec.getLsbD_of_ge b (i - 8 * k) (by omega)]

theorem byte_replaceByte (word : BitVec 64) {j k : Nat} (j_lt : j < 8) (b : BitVec 8) :
    (replaceByte word k b >>> (8 * j)).setWidth 8 =
      if j = k then b else (word >>> (8 * j)).setWidth 8 := by
  apply BitVec.eq_of_getLsbD_eq
  intro i inside
  rw [BitVec.getLsbD_setWidth, BitVec.getLsbD_ushiftRight,
    getLsbD_replaceByte word k b (by omega)]
  by_cases same : j = k
  · have within : 8 * k ≤ 8 * j + i ∧ 8 * j + i < 8 * k + 8 := by omega
    have place : 8 * j + i - 8 * k = i := by omega
    rw [if_pos same, if_pos within, place]
    simp [inside]
  · have outside : ¬ (8 * k ≤ 8 * j + i ∧ 8 * j + i < 8 * k + 8) := by omega
    rw [if_neg same, if_neg outside, BitVec.getLsbD_setWidth, BitVec.getLsbD_ushiftRight]

theorem wordOf_inj {a a' : Nat} (range : a < 2 ^ 64) (range' : a' < 2 ^ 64) :
    wordOf a = wordOf a' ↔ a / 8 = a' / 8 := by
  constructor
  · intro same
    have numbers := congrArg BitVec.toNat same
    rw [wordOf, wordOf, BitVec.toNat_ofNat, BitVec.toNat_ofNat] at numbers
    omega
  · intro same
    rw [wordOf, wordOf, same]

theorem byteAt_setByte {a a' : Nat} (range : a < 2 ^ 64) (range' : a' < 2 ^ 64)
    (b : BitVec 8) :
    byteAt (setByte m a b) a' = if a' = a then b else byteAt m a' := by
  by_cases word : a' / 8 = a / 8
  · have sameWord : wordOf a' = wordOf a := (wordOf_inj range' range).mpr word
    have same : a' % 8 = a % 8 ↔ a' = a := by omega
    rw [byteAt, setByte, sameWord, Function.update_self,
      byte_replaceByte _ (Nat.mod_lt a' (by decide)), byteAt, sameWord]
    simp only [same]
  · have otherWord : wordOf a' ≠ wordOf a := fun same => word ((wordOf_inj range' range).mp same)
    have other : ¬ a' = a := by
      intro same
      exact word (congrArg (· / 8) same)
    rw [byteAt, setByte, Function.update_of_ne otherWord, if_neg other, byteAt]

/-- A word is known by its bytes. -/
theorem word_ext {w : Nat} (aligned : w % 8 = 0)
    (same : ∀ i < 8, byteAt m' (w + i) = byteAt m (w + i)) :
    m' (BitVec.ofNat 64 w) = m (BitVec.ofNat 64 w) := by
  apply BitVec.eq_of_getLsbD_eq
  intro i inside
  have place : wordOf (w + i / 8) = BitVec.ofNat 64 w := by
    have start : (w + i / 8) / 8 * 8 = w := by omega
    rw [wordOf, start]
  have byte := congrArg (fun b => b.getLsbD (i % 8)) (same (i / 8) (by omega))
  have offset : (w + i / 8) % 8 = i / 8 := by omega
  have bit : 8 * (i / 8) + i % 8 = i := Nat.div_add_mod i 8
  simpa only [byteAt, place, offset, BitVec.getLsbD_setWidth, BitVec.getLsbD_ushiftRight, bit,
    Nat.mod_lt i (by decide : 0 < 8), decide_true, Bool.true_and] using byte

/-! ### Several bytes -/

theorem byteAt_writeBytes {bytes : List (BitVec 8)} {a a' : Nat}
    (fits : a + bytes.length ≤ 2 ^ 64) (range' : a' < 2 ^ 64) :
    byteAt (writeBytes m a bytes) a' =
      if a ≤ a' then (bytes[a' - a]?).getD (byteAt m a') else byteAt m a' := by
  have filled := @TableFill.read_fill _ _ _ (fun a bytes m => writeBytes m a bytes) setByte
    byteAt id (2 ^ 64) (fun _ _ => rfl) (fun _ _ _ _ => rfl)
    (fun _ _ b _ range range' => byteAt_setByte range range' b) bytes a a' fits range' m
  rw [Option.map_id_apply] at filled
  exact filled

/-- Bytes outside the written range keep their values. -/
theorem byteAt_writeBytes_outside {bytes : List (BitVec 8)} {a a' : Nat}
    (fits : a + bytes.length ≤ 2 ^ 64) (range' : a' < 2 ^ 64)
    (outside : a' < a ∨ a + bytes.length ≤ a') :
    byteAt (writeBytes m a bytes) a' = byteAt m a' := by
  rw [byteAt_writeBytes fits range']
  split
  · rw [List.getElem?_eq_none (by omega), Option.getD_none]
  · rfl

theorem writeBytes_append (a : Nat) (first second : List (BitVec 8)) :
    writeBytes m a (first ++ second) =
      writeBytes (writeBytes m a first) (a + first.length) second := by
  induction first generalizing a m with
  | nil => rfl
  | cons b first inductionHypothesis =>
      rw [List.cons_append, writeBytes, inductionHypothesis, writeBytes, List.length_cons,
        Nat.add_right_comm]
      rfl

/-- A word none of whose bytes is written keeps its value. -/
theorem word_writeBytes {bytes : List (BitVec 8)} {a w : Nat}
    (fits : a + bytes.length ≤ 2 ^ 64) (aligned : w % 8 = 0) (range : w < 2 ^ 64)
    (outside : w + 8 ≤ a ∨ a + bytes.length ≤ w) :
    writeBytes m a bytes (BitVec.ofNat 64 w) = m (BitVec.ofNat 64 w) := by
  induction bytes generalizing a m with
  | nil => rfl
  | cons b bytes inductionHypothesis =>
      rw [List.length_cons] at fits outside
      rw [writeBytes, inductionHypothesis (by omega) (by omega)]
      apply Function.update_of_ne
      intro same
      have numbers := congrArg BitVec.toNat same
      rw [wordOf, BitVec.toNat_ofNat, BitVec.toNat_ofNat] at numbers
      omega

theorem length_readBytes (a n : Nat) : (readBytes m a n).length = n := by
  rw [readBytes, List.length_map, List.length_range']

theorem getElem?_readBytes {a n i : Nat} (inside : i < n) :
    (readBytes m a n)[i]? = some (byteAt m (a + i)) := by
  rw [readBytes, List.getElem?_map, List.getElem?_range' inside, Nat.one_mul]
  rfl

theorem getElem_readBytes {a n i : Nat} (inside : i < (readBytes m a n).length) :
    (readBytes m a n)[i] = byteAt m (a + i) := by
  simp [readBytes]

theorem readBytes_congr {a n : Nat} (same : ∀ i < n, byteAt m' (a + i) = byteAt m (a + i)) :
    readBytes m' a n = readBytes m a n := by
  apply List.map_congr_left
  intro x inside
  obtain ⟨i, small, rfl⟩ := List.mem_range'.mp inside
  rw [Nat.one_mul]
  exact same i small

/-- Reading back what was written. -/
theorem readBytes_writeBytes {bytes : List (BitVec 8)} {a : Nat}
    (fits : a + bytes.length ≤ 2 ^ 64) :
    readBytes (writeBytes m a bytes) a bytes.length = bytes := by
  apply List.ext_getElem?
  intro i
  rcases Nat.lt_or_ge i bytes.length with inside | beyond
  · have start : a + i - a = i := by omega
    rw [getElem?_readBytes inside, byteAt_writeBytes fits (by omega),
      if_pos (Nat.le_add_right a i), start, List.getElem?_eq_getElem inside, Option.getD_some]
  · rw [List.getElem?_eq_none (by rw [length_readBytes]; exact beyond),
      List.getElem?_eq_none beyond]

end ByteMemory
