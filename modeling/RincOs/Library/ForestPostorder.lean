/-
Module: RincOs.Library.ForestPostorder
Purpose: Listing the nodes below a node, children first.  In a forest the list
  has no duplicates, because two occurrences would be two positions.
Trusted boundary: none
Main exports: postorder, Fits, mem_postorder, Layout.postorder_nodup
-/
import RincOs.Library.RadixForest
import Mathlib.Data.List.Nodup

namespace RadixForest

variable {Space Node Idx : Type*}

/-- The nodes at most `depth` steps below `node`, each after the nodes below it.
`indices` lists the slots to visit, by the depth left below them. -/
def postorder (next : Node → Idx → Option Node) (indices : Nat → List Idx) :
    Nat → Node → List Node
  | 0, node => [node]
  | depth + 1, node =>
      ((indices depth).flatMap fun i =>
        (next node i).elim [] (postorder next indices depth)) ++ [node]

/-- Paths that use the listed slots only. -/
def Fits (indices : Nat → List Idx) : Nat → List Idx → Prop
  | _, [] => True
  | 0, _ :: _ => False
  | depth + 1, i :: path => i ∈ indices depth ∧ Fits indices depth path

variable {next : Node → Idx → Option Node} {indices : Nat → List Idx}

theorem fits_nil (depth : Nat) : Fits indices depth [] := by
  cases depth <;> trivial

theorem mem_postorder {depth : Nat} {node t : Node} :
    t ∈ postorder next indices depth node ↔
      ∃ path, Fits indices depth path ∧ walk next node path = some t := by
  induction depth generalizing node with
  | zero =>
      rw [postorder, List.mem_singleton]
      constructor
      · rintro rfl
        exact ⟨[], fits_nil _, rfl⟩
      · rintro ⟨_ | ⟨i, path⟩, fits, reached⟩
        · exact (Option.some.inj reached).symm
        · exact fits.elim
  | succ depth inductionHypothesis =>
      rw [postorder, List.mem_append, List.mem_flatMap, List.mem_singleton]
      constructor
      · rintro (⟨i, listed, inside⟩ | rfl)
        · cases slot : next node i with
          | none => simp [slot] at inside
          | some child =>
              rw [slot] at inside
              obtain ⟨path, fits, reached⟩ := inductionHypothesis.mp inside
              exact ⟨i :: path, ⟨listed, fits⟩, by simpa [slot] using reached⟩
        · exact ⟨[], fits_nil _, rfl⟩
      · rintro ⟨_ | ⟨i, path⟩, fits, reached⟩
        · exact Or.inr (Option.some.inj reached).symm
        · rw [walk_cons, Option.bind_eq_some_iff] at reached
          obtain ⟨child, slot, reached⟩ := reached
          refine Or.inl ⟨i, fits.1, ?_⟩
          rw [slot]
          exact inductionHypothesis.mpr ⟨path, fits.2, reached⟩

namespace Layout

variable {layout : Layout Space Node Idx}

/-- Whatever is listed below a position is at a longer position. -/
theorem At.of_mem_postorder {a : Space} {depth : Nat} {path : List Idx} {node t : Node}
    (position : layout.At next a path node)
    (admitted : ∀ rest, Fits indices depth rest → layout.admits (path ++ rest))
    (listed : t ∈ postorder next indices depth node) :
    ∃ rest, layout.At next a (path ++ rest) t := by
  obtain ⟨rest, fits, reached⟩ := mem_postorder.mp listed
  refine ⟨rest, position.live, admitted rest fits, ?_⟩
  rw [walk_append, position.reached]
  exact reached

theorem postorder_nodup (forest : layout.Forest next)
    (nodup : ∀ depth, (indices depth).Nodup) {a : Space} {depth : Nat}
    {path : List Idx} {node : Node} (position : layout.At next a path node)
    (admitted : ∀ rest, Fits indices depth rest → layout.admits (path ++ rest)) :
    (postorder next indices depth node).Nodup := by
  induction depth generalizing path node with
  | zero => exact List.nodup_singleton node
  | succ depth inductionHypothesis =>
      have childAdmitted : ∀ {i}, i ∈ indices depth → ∀ rest, Fits indices depth rest →
          layout.admits ((path ++ [i]) ++ rest) := by
        intro i listed rest fits
        simpa using admitted (i :: rest) ⟨listed, fits⟩
      have childAt : ∀ {i child}, i ∈ indices depth → next node i = some child →
          layout.At next a (path ++ [i]) child := fun listed slot =>
        position.child (admitted [_] ⟨listed, fits_nil depth⟩) slot
      -- what is listed below slot `i` sits at a position through that slot
      have below : ∀ {i t}, i ∈ indices depth →
          t ∈ (next node i).elim [] (postorder next indices depth) →
            ∃ rest, layout.At next a (path ++ i :: rest) t := by
        intro i t listed found
        cases slot : next node i with
        | none => simp [slot] at found
        | some child =>
            rw [slot] at found
            obtain ⟨rest, deeper⟩ :=
              (childAt listed slot).of_mem_postorder (childAdmitted listed) found
            exact ⟨rest, by simpa using deeper⟩
      rw [postorder, List.nodup_append]
      refine ⟨List.nodup_flatMap.mpr ⟨fun i listed => ?_, ?_⟩, List.nodup_singleton node, ?_⟩
      · cases slot : next node i with
        | none => exact List.nodup_nil
        | some child =>
            exact inductionHypothesis (childAt listed slot) (childAdmitted listed)
      · refine (nodup depth).pairwise_of_forall_ne fun i one j two different => ?_
        intro t first second
        obtain ⟨rest, left⟩ := below one first
        obtain ⟨rest', right⟩ := below two second
        have same := (forest left right).2
        simp only [List.append_cancel_left_eq, List.cons.injEq] at same
        exact different same.1
      · intro t inside other last
        obtain ⟨i, listed, found⟩ := List.mem_flatMap.mp inside
        obtain ⟨rest, deeper⟩ := below listed found
        rintro rfl
        rw [List.mem_singleton.mp last] at deeper
        simpa using (forest deeper position).2

end Layout

end RadixForest
