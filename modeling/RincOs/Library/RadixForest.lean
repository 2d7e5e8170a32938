/-
Module: RincOs.Library.RadixForest
Purpose: Radix trees stored in one shared array of nodes.  Several trees may
  live in the same store; nothing in the store says which node belongs to
  which tree.  A layout names the roots and the index paths that count, and a
  forest is a store in which no node is reached along two of these paths.
Trusted boundary: none
Main exports:
  walk, Layout, Layout.At, Layout.Forest, Layout.walk_congr,
  Layout.Graft, Layout.Graft.at_iff, Layout.Graft.forest,
  Layout.Plant, Layout.Plant.at_iff, Layout.Plant.forest
-/
import Mathlib.Data.List.Induction
import Mathlib.Data.List.Infix

namespace RadixForest

variable {Space Node Idx : Type*}

/-- Follow a path of indices from a node.  `next` reads the child pointer at an
index, if the slot holds one. -/
def walk (next : Node → Idx → Option Node) : Node → List Idx → Option Node
  | node, [] => some node
  | node, i :: path => (next node i).bind fun child => walk next child path

@[simp] theorem walk_nil (next : Node → Idx → Option Node) (node : Node) :
    walk next node [] = some node := rfl

@[simp] theorem walk_cons (next : Node → Idx → Option Node) (node : Node)
    (i : Idx) (path : List Idx) :
    walk next node (i :: path) =
      (next node i).bind fun child => walk next child path := rfl

theorem walk_append (next : Node → Idx → Option Node) (node : Node)
    (path rest : List Idx) :
    walk next node (path ++ rest) =
      (walk next node path).bind fun inner => walk next inner rest := by
  induction path generalizing node with
  | nil => simp
  | cons i path inductionHypothesis =>
      cases step : next node i with
      | none => simp [step]
      | some child => simp [step, inductionHypothesis child]

theorem walk_concat (next : Node → Idx → Option Node) (node : Node)
    (path : List Idx) (i : Idx) :
    walk next node (path ++ [i]) =
      (walk next node path).bind fun inner => next inner i := by
  simp [walk_append]

/-- Which trees exist, where their roots are, and which paths belong to them.
The admitted paths are closed under taking a parent, so the position above an
admitted position is admitted. -/
structure Layout (Space Node Idx : Type*) where
  live : Space → Prop
  root : Space → Node
  admits : List Idx → Prop
  admits_nil : admits []
  admits_parent : ∀ {path : List Idx} {i : Idx}, admits (path ++ [i]) → admits path

namespace Layout

variable (layout : Layout Space Node Idx) {next next' : Node → Idx → Option Node}

theorem admits_initial {short long : List Idx} (isPrefix : short <+: long)
    (admitted : layout.admits long) : layout.admits short := by
  obtain ⟨tail, rfl⟩ := isPrefix
  induction tail using List.reverseRecOn with
  | nil => simpa using admitted
  | append_singleton tail i inductionHypothesis =>
      rw [← List.append_assoc] at admitted
      exact inductionHypothesis (layout.admits_parent admitted)

/-- Tree `a` has `node` at position `path`. -/
structure At (next : Node → Idx → Option Node) (a : Space) (path : List Idx)
    (node : Node) : Prop where
  live : layout.live a
  admitted : layout.admits path
  reached : walk next (layout.root a) path = some node

/-- No node occurs at two positions, in one tree or in two. -/
def Forest (next : Node → Idx → Option Node) : Prop :=
  ∀ {a b : Space} {path rest : List Idx} {node : Node},
    layout.At next a path node → layout.At next b rest node → a = b ∧ path = rest

variable {layout}

theorem At.unique {a : Space} {path : List Idx} {node other : Node}
    (one : layout.At next a path node) (two : layout.At next a path other) :
    node = other :=
  Option.some.inj (one.reached.symm.trans two.reached)

theorem At.root {a : Space} (live : layout.live a) :
    layout.At next a [] (layout.root a) :=
  ⟨live, layout.admits_nil, rfl⟩

theorem At.child {a : Space} {path : List Idx} {node child : Node} {i : Idx}
    (parent : layout.At next a path node) (admitted : layout.admits (path ++ [i]))
    (slot : next node i = some child) :
    layout.At next a (path ++ [i]) child :=
  ⟨parent.live, admitted, by rw [walk_concat, parent.reached]; exact slot⟩

/-- Every position but the root has a parent that points at it. -/
theorem At.parent {a : Space} {path : List Idx} {node : Node} {i : Idx}
    (child : layout.At next a (path ++ [i]) node) :
    ∃ parent, layout.At next a path parent ∧ next parent i = some node := by
  have reached := child.reached
  rw [walk_concat, Option.bind_eq_some_iff] at reached
  obtain ⟨parent, above, slot⟩ := reached
  exact ⟨parent, ⟨child.live, layout.admits_parent child.admitted, above⟩, slot⟩

/-- Above every position there is a node at each shorter path. -/
theorem At.initial {a : Space} {path rest : List Idx} {node : Node}
    (position : layout.At next a (path ++ rest) node) :
    ∃ above, layout.At next a path above := by
  have reached := position.reached
  rw [walk_append, Option.bind_eq_some_iff] at reached
  obtain ⟨above, upper, -⟩ := reached
  exact ⟨above, position.live, layout.admits_initial ⟨rest, rfl⟩ position.admitted, upper⟩

/-- A store that reads the same child pointers at every admitted slot of the
trees holds the same trees. -/
theorem walk_congr
    (agree : ∀ {a : Space} {path : List Idx} {node : Node} {i : Idx},
      layout.At next a path node → layout.admits (path ++ [i]) →
        next' node i = next node i)
    {a : Space} (live : layout.live a) {path : List Idx}
    (admitted : layout.admits path) :
    walk next' (layout.root a) path = walk next (layout.root a) path := by
  induction path using List.reverseRecOn with
  | nil => rfl
  | append_singleton path i inductionHypothesis =>
      have above := layout.admits_parent admitted
      rw [walk_concat, walk_concat, inductionHypothesis above]
      cases reached : walk next (layout.root a) path with
      | none => rfl
      | some node => exact agree ⟨live, above, reached⟩ admitted

theorem at_congr
    (agree : ∀ {a : Space} {path : List Idx} {node : Node} {i : Idx},
      layout.At next a path node → layout.admits (path ++ [i]) →
        next' node i = next node i)
    {a : Space} {path : List Idx} {node : Node} :
    layout.At next' a path node ↔ layout.At next a path node := by
  constructor
  · intro position
    exact ⟨position.live, position.admitted,
      (walk_congr agree position.live position.admitted).symm.trans position.reached⟩
  · intro position
    exact ⟨position.live, position.admitted,
      (walk_congr agree position.live position.admitted).trans position.reached⟩

/-! ### Hanging a new empty node into a vacant slot -/

/-- `next'` is `next` after the vacant slot `i` of the node at `(a, path)` has
been pointed at the new node `fresh`, whose admitted slots are all vacant. -/
structure Graft (layout : Layout Space Node Idx)
    (next next' : Node → Idx → Option Node) (a : Space) (path : List Idx)
    (parent : Node) (i : Idx) (fresh : Node) : Prop where
  position : layout.At next a path parent
  admitted : layout.admits (path ++ [i])
  vacant : next parent i = none
  linked : next' parent i = some fresh
  empty : ∀ j, layout.admits ((path ++ [i]) ++ [j]) → next' fresh j = none
  elsewhere : ∀ {b : Space} {rest : List Idx} {node : Node} {j : Idx},
    layout.At next b rest node → layout.admits (rest ++ [j]) →
      (node ≠ parent ∨ j ≠ i) → next' node j = next node j

namespace Graft

variable {a : Space} {path : List Idx} {parent fresh : Node} {i : Idx}

/-- Away from the new slot every walk is as before. -/
theorem walk_eq (graft : Graft layout next next' a path parent i fresh)
    (forest : layout.Forest next) {b : Space} (live : layout.live b)
    {rest : List Idx} (admitted : layout.admits rest)
    (apart : ¬ (b = a ∧ path ++ [i] <+: rest)) :
    walk next' (layout.root b) rest = walk next (layout.root b) rest := by
  induction rest using List.reverseRecOn with
  | nil => rfl
  | append_singleton rest j inductionHypothesis =>
      have above := layout.admits_parent admitted
      have apartAbove : ¬ (b = a ∧ path ++ [i] <+: rest) := fun both =>
        apart ⟨both.1, both.2.trans (List.prefix_append rest [j])⟩
      rw [walk_concat, walk_concat, inductionHypothesis above apartAbove]
      cases reached : walk next (layout.root b) rest with
      | none => rfl
      | some node =>
          have here : layout.At next b rest node := ⟨live, above, reached⟩
          refine graft.elsewhere here admitted ?_
          -- the slot is the new one only if the position is `(a, path)` too
          by_contra same
          push Not at same
          obtain ⟨rfl, rfl⟩ := same
          obtain ⟨rfl, rfl⟩ := forest here graft.position
          exact apart ⟨rfl, List.prefix_rfl⟩

theorem position' (graft : Graft layout next next' a path parent i fresh)
    (forest : layout.Forest next) : layout.At next' a path parent := by
  refine ⟨graft.position.live, graft.position.admitted, ?_⟩
  rw [graft.walk_eq forest graft.position.live graft.position.admitted]
  · exact graft.position.reached
  · rintro ⟨-, short⟩
    have longer := short.length_le
    simp only [List.length_append, List.length_cons, List.length_nil] at longer
    omega

theorem fresh_at (graft : Graft layout next next' a path parent i fresh)
    (forest : layout.Forest next) : layout.At next' a (path ++ [i]) fresh :=
  (graft.position' forest).child graft.admitted graft.linked

/-- The positions after a graft: the old ones, and the new node at its slot. -/
theorem at_iff (graft : Graft layout next next' a path parent i fresh)
    (forest : layout.Forest next) {b : Space} {rest : List Idx} {node : Node} :
    layout.At next' b rest node ↔
      layout.At next b rest node ∨ (b = a ∧ rest = path ++ [i] ∧ node = fresh) := by
  constructor
  · intro after
    by_cases below : b = a ∧ path ++ [i] <+: rest
    · obtain ⟨rfl, tail, rfl⟩ := below
      have reached := after.reached
      rw [walk_append, (graft.fresh_at forest).reached, Option.bind_some] at reached
      cases tail with
      | nil =>
          simp only [walk_nil, Option.some.injEq] at reached
          exact Or.inr ⟨rfl, by simp, reached.symm⟩
      | cons j tail =>
          -- the first slot below the new node is vacant, so nothing is there
          have admitted : layout.admits ((path ++ [i]) ++ [j]) :=
            layout.admits_initial ⟨tail, by simp⟩ after.admitted
          rw [walk_cons, graft.empty j admitted] at reached
          simp at reached
    · left
      exact ⟨after.live, after.admitted,
        (graft.walk_eq forest after.live after.admitted below).symm.trans after.reached⟩
  · rintro (before | ⟨rfl, rfl, rfl⟩)
    · refine ⟨before.live, before.admitted, ?_⟩
      rw [graft.walk_eq forest before.live before.admitted]
      · exact before.reached
      · rintro ⟨rfl, tail, rfl⟩
        have reached := before.reached
        rw [walk_append, walk_concat, graft.position.reached] at reached
        simp [graft.vacant] at reached
    · exact graft.fresh_at forest

/-- Grafting a node that occurs nowhere keeps the store a forest. -/
theorem forest (graft : Graft layout next next' a path parent i fresh)
    (before : layout.Forest next)
    (unused : ∀ {b : Space} {rest : List Idx}, ¬ layout.At next b rest fresh) :
    layout.Forest next' := by
  intro b c rest other node one two
  rcases (graft.at_iff before).mp one with old | ⟨rfl, rfl, rfl⟩
  · rcases (graft.at_iff before).mp two with older | ⟨rfl, rfl, rfl⟩
    · exact before old older
    · exact absurd old unused
  · rcases (graft.at_iff before).mp two with older | ⟨rfl, rfl, -⟩
    · exact absurd older unused
    · exact ⟨rfl, rfl⟩

end Graft

/-! ### Planting a new root -/

/-- `planted` is `layout` with one more tree `a`, whose root is `fresh` and has
no child at an admitted slot; the slots of the other trees read as before. -/
structure Plant (layout planted : Layout Space Node Idx)
    (next next' : Node → Idx → Option Node) (a : Space) (fresh : Node) : Prop where
  notLive : ¬ layout.live a
  live_iff : ∀ b, planted.live b ↔ layout.live b ∨ b = a
  root_new : planted.root a = fresh
  root_old : ∀ {b : Space}, layout.live b → planted.root b = layout.root b
  admits_eq : planted.admits = layout.admits
  empty : ∀ j, layout.admits [j] → next' fresh j = none
  elsewhere : ∀ {b : Space} {rest : List Idx} {node : Node} {j : Idx},
    layout.At next b rest node → layout.admits (rest ++ [j]) →
      next' node j = next node j

namespace Plant

variable {planted : Layout Space Node Idx} {a : Space} {fresh : Node}

/-- The positions after planting: the old ones, and the new root. -/
theorem at_iff (plant : Plant layout planted next next' a fresh)
    {b : Space} {rest : List Idx} {node : Node} :
    planted.At next' b rest node ↔
      layout.At next b rest node ∨ (b = a ∧ rest = [] ∧ node = fresh) := by
  constructor
  · intro after
    have admitted : layout.admits rest := plant.admits_eq ▸ after.admitted
    rcases (plant.live_iff b).mp after.live with old | rfl
    · left
      refine ⟨old, admitted, ?_⟩
      rw [← walk_congr plant.elsewhere old admitted, ← plant.root_old old]
      exact after.reached
    · right
      have reached := after.reached
      rw [plant.root_new] at reached
      cases rest with
      | nil => exact ⟨rfl, rfl, (Option.some.inj reached).symm⟩
      | cons j rest =>
          have first : layout.admits [j] :=
            layout.admits_initial ⟨rest, rfl⟩ admitted
          rw [walk_cons, plant.empty j first] at reached
          simp at reached
  · rintro (before | ⟨rfl, rfl, rfl⟩)
    · refine ⟨(plant.live_iff b).mpr (Or.inl before.live),
        plant.admits_eq ▸ before.admitted, ?_⟩
      rw [plant.root_old before.live,
        walk_congr plant.elsewhere before.live before.admitted]
      exact before.reached
    · refine ⟨(plant.live_iff b).mpr (Or.inr rfl), planted.admits_nil, ?_⟩
      rw [plant.root_new]
      rfl

/-- Planting a root that occurs nowhere keeps the store a forest. -/
theorem forest (plant : Plant layout planted next next' a fresh)
    (before : layout.Forest next)
    (unused : ∀ {b : Space} {rest : List Idx}, ¬ layout.At next b rest fresh) :
    planted.Forest next' := by
  intro b c rest other node one two
  rcases plant.at_iff.mp one with old | ⟨rfl, rfl, rfl⟩
  · rcases plant.at_iff.mp two with older | ⟨rfl, rfl, rfl⟩
    · exact before old older
    · exact absurd old unused
  · rcases plant.at_iff.mp two with older | ⟨rfl, rfl, -⟩
    · exact absurd older unused
    · exact ⟨rfl, rfl⟩

end Plant

end Layout

end RadixForest
