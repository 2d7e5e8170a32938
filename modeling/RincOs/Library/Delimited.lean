/-
Module: RincOs.Library.Delimited
Purpose: Texts with delimiters: where a delimiter does not occur in the parts, the
  parts can be told from the whole, from its front and from its end.
Trusted boundary: none
Main exports:
  Delimited.cut_first, Delimited.cut_last, Delimited.unlines, Delimited.unlines_front,
  Delimited.unlines_injective, Delimited.unlines_last, Delimited.unlines_back
-/
import Mathlib.Data.List.Basic
import Mathlib.Data.List.Induction

namespace Delimited

variable {α : Type} {sep : α} {a b x y : List α} {ls ks : List (List α)}

theorem cut_first (left : sep ∉ a) (right : sep ∉ b) (same : a ++ sep :: x = b ++ sep :: y) :
    a = b ∧ x = y := by
  induction a generalizing b with
  | nil =>
      cases b with
      | nil => exact ⟨rfl, (List.cons.inj same).2⟩
      | cons d b =>
          have head : sep = d := (List.cons.inj same).1
          simp [head] at right
  | cons c a inductionHypothesis =>
      cases b with
      | nil =>
          have head : c = sep := (List.cons.inj same).1
          simp [head] at left
      | cons d b =>
          obtain ⟨head, tail⟩ := List.cons.inj same
          obtain ⟨parts, rest⟩ := inductionHypothesis (fun inside => left (.tail _ inside))
            (fun inside => right (.tail _ inside)) tail
          exact ⟨by rw [head, parts], rest⟩

/-- The same from the end, by reversal. -/
theorem cut_last (left : sep ∉ a) (right : sep ∉ b) (same : x ++ sep :: a = y ++ sep :: b) :
    a = b ∧ x = y := by
  have reversed : a.reverse ++ sep :: x.reverse = b.reverse ++ sep :: y.reverse := by
    simpa using congrArg List.reverse same
  obtain ⟨parts, rest⟩ := cut_first (by simpa using left) (by simpa using right) reversed
  exact ⟨List.reverse_injective parts, List.reverse_injective rest⟩

/-- Lines, each with its end. -/
def unlines (sep : α) (ls : List (List α)) : List α := ls.flatMap fun l => l ++ [sep]

@[simp] theorem unlines_nil : unlines sep [] = [] := rfl

@[simp] theorem unlines_cons (l : List α) (ls : List (List α)) :
    unlines sep (l :: ls) = l ++ sep :: unlines sep ls := by
  simp [unlines]

@[simp] theorem unlines_append (ls ks : List (List α)) :
    unlines sep (ls ++ ks) = unlines sep ls ++ unlines sep ks := by
  simp [unlines]

/-- So many lines at the front are determined. -/
theorem unlines_front (left : ∀ l ∈ ls, sep ∉ l) (right : ∀ k ∈ ks, sep ∉ k)
    (length : ls.length = ks.length) (same : unlines sep ls ++ x = unlines sep ks ++ y) :
    ls = ks ∧ x = y := by
  induction ls generalizing ks with
  | nil =>
      obtain rfl := List.length_eq_zero_iff.mp length.symm
      exact ⟨rfl, same⟩
  | cons l ls inductionHypothesis =>
      cases ks with
      | nil => cases length
      | cons k ks =>
          simp only [unlines_cons, List.append_assoc, List.cons_append] at same
          obtain ⟨rfl, rest⟩ := cut_first (left l (.head _)) (right k (.head _)) same
          obtain ⟨rfl, behind⟩ := inductionHypothesis (fun l inside => left l (.tail _ inside))
            (fun k inside => right k (.tail _ inside)) (Nat.succ.inj length) rest
          exact ⟨rfl, behind⟩

theorem unlines_injective (left : ∀ l ∈ ls, sep ∉ l) (right : ∀ k ∈ ks, sep ∉ k)
    (same : unlines sep ls = unlines sep ks) : ls = ks := by
  induction ls generalizing ks with
  | nil =>
      cases ks with
      | nil => rfl
      | cons k ks => simp at same
  | cons l ls inductionHypothesis =>
      cases ks with
      | nil => simp at same
      | cons k ks =>
          simp only [unlines_cons] at same
          obtain ⟨rfl, rest⟩ := cut_first (left l (.head _)) (right k (.head _)) same
          rw [inductionHypothesis (fun l inside => left l (.tail _ inside))
            (fun k inside => right k (.tail _ inside)) rest]

/-- In front of a line there is the end of another one. -/
theorem unlines_ends (x : List α) (ls : List (List α)) :
    ∃ y, x ++ sep :: unlines sep ls = y ++ [sep] := by
  induction ls generalizing x with
  | nil => exact ⟨x, rfl⟩
  | cons l ls inductionHypothesis =>
      obtain ⟨y, ends⟩ := inductionHypothesis (x ++ sep :: l)
      exact ⟨y, by simpa using ends⟩

/-- The last line is determined, and what is in front of it. -/
theorem unlines_last {l k : List α} (left : sep ∉ l) (right : sep ∉ k)
    (same : x ++ sep :: unlines sep (ls ++ [l]) = y ++ sep :: unlines sep (ks ++ [k])) :
    l = k ∧ x ++ sep :: unlines sep ls = y ++ sep :: unlines sep ks := by
  obtain ⟨x', endsX⟩ := @unlines_ends α sep x ls
  obtain ⟨y', endsY⟩ := @unlines_ends α sep y ks
  have ended : (x ++ sep :: unlines sep ls) ++ l ++ [sep] =
      (y ++ sep :: unlines sep ks) ++ k ++ [sep] := by simpa using same
  have spread := List.append_cancel_right ended
  rw [endsX, endsY] at spread
  obtain ⟨parts, rest⟩ := cut_last left right (by simpa using spread)
  exact ⟨parts, by rw [endsX, endsY, rest]⟩

/-- So many lines at the end are determined. -/
theorem unlines_back (left : ∀ l ∈ ls, sep ∉ l) (right : ∀ k ∈ ks, sep ∉ k)
    (length : ls.length = ks.length)
    (same : x ++ sep :: unlines sep ls = y ++ sep :: unlines sep ks) : ls = ks := by
  induction ls using List.reverseRecOn generalizing ks with
  | nil => exact (List.length_eq_zero_iff.mp length.symm).symm
  | append_singleton ls l inductionHypothesis =>
      rcases List.eq_nil_or_concat' ks with rfl | ⟨ks, k, rfl⟩
      · simp at length
      · obtain ⟨rfl, rest⟩ := unlines_last (left l (by simp)) (right k (by simp)) same
        have front := inductionHypothesis (fun l inside => left l (by simp [inside]))
          (fun k inside => right k (by simp [inside])) (by simpa using length) rest
        rw [front]

end Delimited
