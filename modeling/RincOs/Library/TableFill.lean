/-
Module: RincOs.Library.TableFill
Purpose: Loops that fill a table: by a list of keys with a value for each, or from
  an index on with the elements of a list.
Trusted boundary: none
Main exports: foldl_update_other, foldl_update_self, read_fill
-/
import Mathlib.Data.Nat.Bitwise
import Mathlib.Logic.Function.Basic

namespace TableFill

/-! ### By keys -/

section

variable {α β γ : Type} [DecidableEq β] {key : α → β} {value : α → γ}

/-- Entries under other keys keep their values. -/
theorem foldl_update_other {entries : List α} {k : β} (other : ∀ a ∈ entries, key a ≠ k)
    (table : β → γ) :
    entries.foldl (fun t a => Function.update t (key a) (value a)) table k = table k := by
  induction entries generalizing table with
  | nil => rfl
  | cons b entries inductionHypothesis =>
      rw [List.foldl_cons, inductionHypothesis fun a inside => other a (.tail _ inside)]
      exact Function.update_of_ne (other b List.mem_cons_self).symm _ _

/-- With distinct keys each entry gets its own value. -/
theorem foldl_update_self (distinct : Function.Injective key) {entries : List α}
    (nodup : entries.Nodup) {a : α} (inside : a ∈ entries) (table : β → γ) :
    entries.foldl (fun t a => Function.update t (key a) (value a)) table (key a) = value a := by
  induction entries generalizing table with
  | nil => cases inside
  | cons b entries inductionHypothesis =>
      obtain ⟨fresh, nodup⟩ := List.nodup_cons.mp nodup
      rw [List.foldl_cons]
      rcases List.mem_cons.mp inside with rfl | later
      · have apart : ∀ c ∈ entries, key c ≠ key a := by
          intro c among same
          exact fresh (distinct same ▸ among)
        rw [foldl_update_other apart]
        exact Function.update_self _ _ _
      · exact inductionHypothesis nodup later _

end

/-! ### By indices -/

/-- A loop that stores the elements of a list from index `i` on, in a table of `bound`
places where a store at one index is read at that index only. -/
theorem read_fill {σ α β : Type} {fill : Nat → List α → σ → σ} {store : σ → Nat → α → σ}
    {read : σ → Nat → β} {value : α → β} {bound : Nat} (nil : ∀ i s, fill i [] s = s)
    (cons : ∀ i a entries s, fill i (a :: entries) s = fill (i + 1) entries (store s i a))
    (one : ∀ s i a j, i < bound → j < bound →
      read (store s i a) j = if j = i then value a else read s j)
    {entries : List α} {i j : Nat} (room : i + entries.length ≤ bound) (inside : j < bound)
    (s : σ) :
    read (fill i entries s) j =
      if i ≤ j then (entries[j - i]?.map value).getD (read s j) else read s j := by
  induction entries generalizing i s with
  | nil => simp [nil]
  | cons a entries inductionHypothesis =>
      rw [List.length_cons] at room
      rw [cons, inductionHypothesis (by omega), one s i a j (by omega) inside]
      rcases Nat.lt_trichotomy i j with later | rfl | earlier
      · obtain ⟨k, rfl⟩ := Nat.exists_eq_add_of_lt later
        have first : i + k + 1 - i = k + 1 := by omega
        have rest : i + k + 1 - (i + 1) = k := by omega
        have other : ¬ i + k + 1 = i := by omega
        rw [if_pos (by omega : i + 1 ≤ i + k + 1), if_neg other, if_pos later.le, first, rest,
          List.getElem?_cons_succ]
      · rw [if_neg (Nat.not_succ_le_self i), if_pos rfl, if_pos le_rfl, Nat.sub_self]
        rfl
      · have other : ¬ j = i := by omega
        rw [if_neg (by omega : ¬ i + 1 ≤ j), if_neg other, if_neg (by omega : ¬ i ≤ j)]

end TableFill
