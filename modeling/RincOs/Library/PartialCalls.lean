/-
Module: RincOs.Library.PartialCalls
Purpose: Calls that may have no result.  What a function answers when it is called
  again and again on its own state, and two partial computations side by side.
Trusted boundary: none
Main exports:
  PartialCalls.answers, PartialCalls.prepend, PartialCalls.prepend_append,
  PartialCalls.given_before_none_iff, PartialCalls.rel_bind, PartialCalls.isSome_of_rel
-/
import Mathlib.Data.List.Basic
import Mathlib.Data.Option.Basic

namespace PartialCalls

/-! ### Answers of repeated calls

A call on a state of its own answers with a value or with nothing.  Once it has nothing left
it usually stays so, but it may as well repeat itself, so that the answers are a sequence and
not a list. -/

section

variable {σ α : Type*}

/-- What call `n` answers, counted from 0. -/
def answers (call : σ → Option α × σ) : σ → Nat → Option α
  | s, 0 => (call s).1
  | s, n + 1 => answers call (call s).2 n

/-- Some values in front of other answers. -/
def prepend : List α → (Nat → Option α) → Nat → Option α
  | [], rest, n => rest n
  | a :: _, _, 0 => some a
  | _ :: as, rest, n + 1 => prepend as rest n

variable {call : σ → Option α × σ} {s s' : σ}

/-- A state that the call does not leave. -/
theorem answers_fixed {a : Option α} (fixed : call s = (a, s)) (n : Nat) :
    answers call s n = a := by
  induction n with
  | zero => rw [answers, fixed]
  | succ n inductionHypothesis =>
      rw [answers, fixed]
      exact inductionHypothesis

theorem answers_congr (same : call s = call s') : answers call s = answers call s' := by
  funext n
  cases n with
  | zero => rw [answers, answers, same]
  | succ n => rw [answers, answers, same]

theorem answers_some {a : α} (taken : call s = (some a, s')) :
    answers call s = prepend [a] (answers call s') := by
  funext n
  cases n with
  | zero => rw [answers, taken, prepend]
  | succ n => rw [answers, taken, prepend, prepend]

@[simp] theorem prepend_nil (rest : Nat → Option α) : prepend [] rest = rest := rfl

theorem prepend_append (as bs : List α) (rest : Nat → Option α) :
    prepend (as ++ bs) rest = prepend as (prepend bs rest) := by
  induction as with
  | nil => rfl
  | cons a as inductionHypothesis =>
      funext n
      cases n with
      | zero => rfl
      | succ n => exact congrFun inductionHypothesis n

theorem prepend_cancel {as : List α} {rest rest' : Nat → Option α}
    (same : prepend as rest = prepend as rest') : rest = rest' := by
  induction as with
  | nil => exact same
  | cons a as inductionHypothesis =>
      apply inductionHypothesis
      funext n
      exact congrFun same (n + 1)

theorem prepend_none (as : List α) (n : Nat) : prepend as (fun _ => none) n = as[n]? := by
  induction as generalizing n with
  | nil => rfl
  | cons a as inductionHypothesis =>
      cases n with
      | zero => rfl
      | succ n => exact inductionHypothesis n

theorem prepend_some_ne_none (as : List α) (a : α) (n : Nat) :
    prepend as (fun _ => some a) n ≠ none := by
  induction as generalizing n with
  | nil => exact Option.some_ne_none a
  | cons b as inductionHypothesis =>
      cases n with
      | zero => exact Option.some_ne_none b
      | succ n => exact inductionHypothesis n

theorem eq_nil_of_prepend_none {as : List α} {a : Option α}
    (same : prepend as (fun _ => a) = fun _ => none) : as = [] ∧ a = none := by
  cases as with
  | nil => exact ⟨rfl, congrFun same 0⟩
  | cons b as => cases congrFun same 0

/-- Answers that list some values end after all of these. -/
theorem given_before_none_iff {answer : Nat → Option α} {frames : List α}
    (lists : ∀ n, answer n = frames[n]?) (f : α) :
    (∀ n, answer n = none → ∃ k < n, answer k = some f) ↔ f ∈ frames := by
  constructor
  · intro given
    have ended : answer frames.length = none :=
      (lists _).trans (List.getElem?_eq_none (Nat.le_refl _))
    obtain ⟨k, -, found⟩ := given _ ended
    rw [lists] at found
    exact List.mem_of_getElem? found
  · intro inside n ended
    rw [lists, List.getElem?_eq_none_iff] at ended
    obtain ⟨k, found⟩ := List.mem_iff_getElem?.mp inside
    obtain ⟨inList, -⟩ := List.getElem?_eq_some_iff.mp found
    refine ⟨k, Nat.lt_of_lt_of_le inList ended, ?_⟩
    rw [lists, found]

/-- A search that gives up at an element does not see what is behind it. -/
theorem takeWhile_append_failing {p : α → Bool} {a : α} (fails : p a = false)
    (front back : List α) : (front ++ a :: back).takeWhile p = front.takeWhile p := by
  induction front with
  | nil => simp [fails]
  | cons first front inductionHypothesis =>
      simp only [List.cons_append, List.takeWhile_cons, inductionHypothesis]

end

/-! ### Partial computations side by side -/

section

variable {α β : Type*} {R : α → β → Prop} {a : Option α} {b : Option β}

theorem rel_bind (related : Option.Rel R a b) {f : α → Option α} {g : β → Option β}
    (next : ∀ a b, R a b → Option.Rel R (f a) (g b)) : Option.Rel R (a.bind f) (b.bind g) := by
  cases related with
  | none => exact .none
  | some related => exact next _ _ related

theorem isSome_of_rel (related : Option.Rel R a b) : b.isSome = a.isSome := by
  cases related <;> rfl

theorem exists_left_of_rel (related : Option.Rel R a b) {y : β} (some : b = some y) :
    ∃ x, a = .some x ∧ R x y := by
  cases related with
  | none => cases some
  | some related => cases some; exact ⟨_, rfl, related⟩

theorem exists_right_of_rel (related : Option.Rel R a b) {x : α} (some : a = some x) :
    ∃ y, b = .some y ∧ R x y := by
  cases related with
  | none => cases some
  | some related => cases some; exact ⟨_, rfl, related⟩

end

end PartialCalls
