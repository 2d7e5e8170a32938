/-
Module: RincOs.Proofs.SpaceSteps
Purpose: What the mapping operations on one created space leave alone, at any
  address of it that no large page covers: the kernel's PML4, the tables already
  in use, and the entries already present in the space's own PML4.
Trusted boundary: none
Main exports:
  SpaceStep, SplitInv.map_step, SplitInv.replace_step, Hands, map4k_hands
-/
import RincOs.Proofs.KernelSide

namespace RincOs

open RadixForest LawfulFrameAlloc

variable {A : Type} [PageTableFrameAlloc A] [LawfulFrameAlloc A]

/-! ### The relation -/

/-- From `s` to `s'` the operations on space `a` added frames that were not held: tables of
its lower half, and tables linked into absent entries of the kernel half of its PML4. -/
structure SpaceStep (root : PhysAddr) (a : Fin maxAddressSpaces) (s s' : Sys A) : Prop where
  slots : s'.asSlots = s.asSlots
  heldMono : ∀ {g}, Held s.ptAlloc g → Held s'.ptAlloc g
  kernel : ∀ i, readEntry s'.mem root i = readEntry s.mem root i
  tables : ∀ {path t}, HasTable (Used s.toMachine) s'.toMachine a path t →
    HasTable (Used s.toMachine) s.toMachine a path t ∨ ¬ Held s.ptAlloc t
  upper : ∀ i, kernelPml4Start ≤ i →
    readEntry s'.mem (s.rootOf a) i = readEntry s.mem (s.rootOf a) i ∨
      present (readEntry s.mem (s.rootOf a) i) = false ∧
        ∃ f user, readEntry s'.mem (s.rootOf a) i = tableEntry f user ∧ IsFrame f ∧
          ¬ Held s.ptAlloc f ∧ Held s'.ptAlloc f

variable {reserved : PhysAddr → Prop} {root : PhysAddr} {level : Nat → PhysAddr → Prop}
variable {a : Fin maxAddressSpaces} {s s₁ s' : Sys A}

namespace SpaceStep

theorem refl (root : PhysAddr) (a : Fin maxAddressSpaces) (s : Sys A) : SpaceStep root a s s where
  slots := rfl
  heldMono := id
  kernel _ := rfl
  tables := Or.inl
  upper _ _ := Or.inl rfl

theorem rootOf (step : SpaceStep root a s s') : s'.rootOf a = s.rootOf a := by
  rw [Machine.rootOf, Machine.rootOf, step.slots]

theorem used (step : SpaceStep root a s s') (inUse : Used s.toMachine a) :
    Used s'.toMachine a := by
  rw [used_congr step.slots]
  exact inUse

theorem trans (one : SpaceStep root a s s₁) (two : SpaceStep root a s₁ s') :
    SpaceStep root a s s' where
  slots := two.slots.trans one.slots
  heldMono held := two.heldMono (one.heldMono held)
  kernel i := (two.kernel i).trans (one.kernel i)
  tables table := by
    rw [← used_congr one.slots] at table
    rcases two.tables table with early | free
    · rw [used_congr one.slots] at early
      exact one.tables early
    · exact Or.inr fun held => free (one.heldMono held)
  upper i high := by
    have second := two.upper i high
    rw [one.rootOf] at second
    rcases one.upper i high with same | ⟨absent, f, user, entry, frame, free, held⟩
    · rw [same] at second
      rcases second with still | ⟨absent, f, user, entry, frame, free, held⟩
      · exact Or.inl still
      · exact Or.inr ⟨absent, f, user, entry, frame, fun early => free (one.heldMono early), held⟩
    · rcases second with still | ⟨gone, -⟩
      · exact Or.inr ⟨absent, f, user, still.trans entry, frame, free, two.heldMono held⟩
      · rw [entry, present_tableEntry] at gone
        cases gone

end SpaceStep

/-! ### Steps in the lower half -/

/-- The kernel's PML4 is not one of the created ones. -/
theorem SplitInv.root_ne (split : SplitInv reserved root level s) (used : Used s.toMachine a) :
    root ≠ s.rootOf a := by
  intro same
  have top : HasTable (Used s.toMachine) s.toMachine a [] (s.rootOf a) := .root used
  rw [← same] at top
  exact split.side.apart split.side.top top

theorem SplitInv.lower_spaceStep (split : SplitInv reserved root level s)
    (used : Used s.toMachine a) (step : LowerStep (Used s.toMachine) a s s')
    (spares : Spares reserved s'.ptAlloc) (kept : KernelHalfKept s s') :
    SpaceStep root a s s' where
  slots := step.slots
  heldMono := step.heldMono
  kernel i := split.side_words spares step.frame split.side.top i
  tables := kept.tables
  upper i high := Or.inl (kept.words used i high)

/-! ### Steps in the upper half -/

/-- The entry at which a table is linked: below the kernel half of the space's PML4, or in
that half. -/
def UpperSlot (level : Nat → PhysAddr → Prop) (k : Machine) (a : Fin maxAddressSpaces) (l : Nat)
    (t : PhysAddr) (i : Fin entryCount) : Prop :=
  level (l + 1) t ∧ l < 3 ∨ l = 3 ∧ kernelPml4Start ≤ i ∧ t = k.rootOf a

omit [PageTableFrameAlloc A] [LawfulFrameAlloc A] in
theorem UpperSlot.side {l : Nat} {t : PhysAddr} {i : Fin entryCount}
    (slot : UpperSlot level s.toMachine a l t i) (used : Used s.toMachine a) :
    Side level s.toMachine l t i := by
  rcases slot with ⟨table, -⟩ | ⟨top, high, same⟩
  · exact Or.inl table
  · exact Or.inr ⟨top, high, a, used, same⟩

theorem UpperSlot.ne_root {l : Nat} {t : PhysAddr} {i : Fin entryCount}
    (slot : UpperSlot level s.toMachine a l t i) (split : SplitInv reserved root level s)
    (used : Used s.toMachine a) : root ≠ t := by
  rintro rfl
  rcases slot with ⟨table, below⟩ | ⟨-, -, same⟩
  · have top := split.side.unique split.side.top table
    omega
  · exact split.root_ne used same

theorem SplitInv.ensureTable_step {l : Nat} {t : PhysAddr} {i : Fin entryCount} (user : Bool)
    (split : SplitInv reserved root level s) (used : Used s.toMachine a)
    (slot : UpperSlot level s.toMachine a l t i) :
    SpaceStep root a s ((RincOs.ensureTable t i user).exec s).2 := by
  have side := slot.side used
  have rootFrame := split.inv.trees.roots used
  rw [ensureTable_exec]
  by_cases isPresent : present (readEntry s.mem t i) = true
  · rw [if_pos isPresent]
    exact .refl root a s
  rw [if_neg isPresent]
  rcases alloc : allocFrame4k s.ptAlloc s.mem with ⟨_ | f, al, m⟩
  · obtain ⟨-, rfl, held⟩ := alloc_none split.inv.trees.valid alloc
    exact ⟨rfl, fun {g} early => (held g).mpr early, fun _ => rfl, Or.inl, fun _ _ => Or.inl rfl⟩
  · obtain ⟨-, newFrame, free, held, outside⟩ := alloc_some split.inv.trees.valid alloc
    have parentFrame := split.side_isFrame side
    have read : ∀ {q j}, IsFrame q → q ≠ f →
        readEntry (linkTable m t i f user) q j =
          if q = t ∧ j = i then tableEntry f user else readEntry s.mem q j := by
      intro q j frame old
      rw [readEntry_linkTable outside parentFrame newFrame frame, if_neg old]
    have keeps := split.link_keepsLower user side alloc
    refine ⟨rfl, fun {g} early => (held g).mpr (Or.inl early), ?_,
      fun table => Or.inl (keeps.hasTable_iff.mp table), ?_⟩
    · intro j
      have old : root ≠ f := fun same => split.not_given alloc (same ▸ split.side.top)
      rw [read (split.side.isFrame split.side.top) old, if_neg]
      exact fun same => slot.ne_root split used same.1
    · intro j _
      have top : HasTable (Used s.toMachine) s.toMachine a [] (s.rootOf a) := .root used
      have old : s.rootOf a ≠ f := fun same => free (same ▸ split.inv.trees.held top)
      by_cases here : s.rootOf a = t ∧ j = i
      · right
        refine ⟨?_, f, user, ?_, newFrame, free, (held f).mpr (Or.inr rfl)⟩
        · rw [here.1, here.2]
          exact Bool.eq_false_iff.mpr isPresent
        · rw [read rootFrame old, if_pos here]
      · left
        rw [read rootFrame old, if_neg here]

theorem SplitInv.ensurePath_step {t : PhysAddr} {path : List (Fin entryCount)} (user : Bool)
    (split : SplitInv reserved root level s) (used : Used s.toMachine a)
    (table : level (path.length + 1) t) (short : path.length < 3)
    (small : SmallPath s.mem t path) :
    SpaceStep root a s ((RincOs.ensurePath user t path).exec s).2 := by
  induction path generalizing s t level with
  | nil => exact .refl root a s
  | cons i rest inductionHypothesis =>
      rw [List.length_cons] at table short
      have first : SideEnds reserved root rest _ := split.ensureTable user (Or.inl table) small
      have step := split.ensureTable_step user used (Or.inl ⟨table, short⟩ :
        UpperSlot level s.toMachine a (rest.length + 1) t i)
      rw [RincOs.ensurePath, MmuM.exec_bind]
      generalize (RincOs.ensureTable t i user).exec s = outcome at first step
      obtain ⟨e | child, s₁⟩ := outcome
      · exact step
      · obtain ⟨level₁, split₁, child₁, small₁⟩ := first
        have used₁ : Used s₁.toMachine a := step.used used
        exact step.trans (inductionHypothesis split₁ used₁ child₁ (by omega) small₁)

theorem SplitInv.writeLeaf_step {pt : PhysAddr} (split : SplitInv reserved root level s)
    (used : Used s.toMachine a) (table : level 1 pt) (i : Fin entryCount) (w : Word)
    (ops : List TlbOp) :
    SpaceStep root a s { s with mem := writeEntry s.mem pt i w, tlbOps := ops } := by
  have frame := split.side.isFrame table
  have keeps := split.writeLeaf_keepsLower table i w ops
  refine ⟨rfl, id, ?_, fun other => Or.inl (keeps.hasTable_iff.mp other), ?_⟩
  · intro j
    apply readEntry_writeEntry_ne frame (split.side.isFrame split.side.top)
    left
    rintro rfl
    cases split.side.unique split.side.top table
  · intro j _
    left
    apply readEntry_writeEntry_ne frame (split.inv.trees.roots used)
    left
    rintro rfl
    exact split.side.apart table (Layout.At.root used)

/-! ### The operations -/

theorem SplitInv.map_upper_step {v : VirtAddr} (p : PhysAddr) (flags : MapFlags)
    (split : SplitInv reserved root level s) (used : Used s.toMachine a)
    (high : kernelPml4Start ≤ pml4Index v) (small : largePage s.mem (s.rootOf a) v = false) :
    SpaceStep root a s ((map4k (.slot a) v p flags).exec s).2 := by
  have slot : UpperSlot level s.toMachine a 3 (s.rootOf a) (pml4Index v) :=
    Or.inr ⟨rfl, high, rfl⟩
  rw [map4k_exec]
  split
  · exact .refl root a s
  split
  · exact .refl root a s
  have first : SideEnds reserved root [pdptIndex v, pdIndex v] _ :=
    split.ensureTable (flags.contains .user) (slot.side used) (smallPath_of_small small)
  have step := split.ensureTable_step (flags.contains .user) used slot
  rw [tablePath, RincOs.ensurePath, MmuM.exec_bind]
  change SideEnds _ _ _ ((RincOs.ensureTable (s.asX86 (.slot a)).pml4Phys _ _).exec s) at first
  change SpaceStep _ _ _ ((RincOs.ensureTable (s.asX86 (.slot a)).pml4Phys _ _).exec s).2 at step
  generalize (RincOs.ensureTable _ (pml4Index v) _).exec s = outcome at first step
  obtain ⟨e | child, s₁⟩ := outcome
  · exact step
  · obtain ⟨level₁, split₁, child₁, small₁⟩ := first
    have used₁ : Used s₁.toMachine a := step.used used
    have further := split₁.ensurePath (flags.contains .user) child₁ small₁
    have more := step.trans
      (split₁.ensurePath_step (flags.contains .user) used₁ child₁ (Nat.lt_succ_self 2) small₁)
    dsimp only
    generalize (RincOs.ensurePath _ child _).exec s₁ = outcome at further more
    obtain ⟨e | pt, s₂⟩ := outcome
    · exact more
    · obtain ⟨level₂, split₂, table, -⟩ := further
      have used₂ : Used s₂.toMachine a := more.used used
      dsimp only
      rw [mapLeaf]
      split
      · exact more
      · exact more.trans (split₂.writeLeaf_step used₂ table _ _ _)

/-- `map_4k` on a created space, at any address that no large page covers. -/
theorem SplitInv.map_step {v : VirtAddr} (p : PhysAddr) (flags : MapFlags)
    (split : SplitInv reserved root level s) (used : Used s.toMachine a)
    (small : largePage s.mem (s.rootOf a) v = false) :
    SpaceStep root a s ((map4k (.slot a) v p flags).exec s).2 := by
  cases canonical : isCanonical v with
  | true =>
      rcases lowerHalf_or_kernel canonical with lower | upper
      · have ends := map4k_lower split.inv.trees used lower p flags
        exact split.lower_spaceStep used (ends.lowerStep split.inv.trees)
          (split.spares.serves (map4k_serves (.slot a) v p flags s)) ends.kernelHalf
      · exact split.map_upper_step p flags used upper small
  | false =>
      rw [map4k_exec, canonical]
      split
      · exact .refl root a s
      · exact .refl root a s

/-- `unmap_4k` and `protect_4k` likewise. -/
theorem SplitInv.replace_step {v : VirtAddr} (update : Bool → Word → Word)
    (split : SplitInv reserved root level s) (used : Used s.toMachine a)
    (small : largePage s.mem (s.rootOf a) v = false) :
    SpaceStep root a s ((replaceLeaf (.slot a) v update).exec s).2 := by
  cases canonical : isCanonical v with
  | true =>
      rcases lowerHalf_or_kernel canonical with lower | upper
      · have ends : ReplaceEnds (Used s.toMachine) a v update s _ :=
          replaceLeaf_lower used lower update
        exact split.lower_spaceStep used (ends.lowerStep split.inv.trees)
          (split.replace_lower update used lower).spares
          (ends.kernelHalf split.inv.trees.toTrees)
      · have side : Side level s.toMachine 3 (s.asX86 (.slot a)).pml4Phys (pml4Index v) :=
          Or.inr ⟨rfl, upper, a, used, rfl⟩
        rcases replaceLeaf_cases (.slot a) v update s with same | ⟨pt, w, found, written⟩
        · rw [same]
          exact .refl root a s
        · rw [written]
          exact split.writeLeaf_step used (split.walk_side side small found) _ _ _
  | false =>
      rw [replaceLeaf_exec, canonical]
      split
      · exact .refl root a s
      · exact .refl root a s

/-! ### Frames handed out -/

/-- From `s` to `s'` frames were taken from the allocator and none given back. -/
structure Hands (s s' : Sys (Recorded A)) : Prop where
  valid : Valid s'.ptAlloc
  heldMono : ∀ g, Held s.ptAlloc g → Held s'.ptAlloc g
  given : ∃ given, s'.ptAlloc.answers = s.ptAlloc.answers ++ given ∧
    ∀ g, some g ∈ given ↔ ¬ Held s.ptAlloc g ∧ Held s'.ptAlloc g

namespace Hands

variable {s s₁ s' : Sys (Recorded A)}

/-- The frames handed out are those that became held. -/
theorem mem_answersDuring (hands : Hands s s') (f : PhysAddr) :
    some f ∈ answersDuring s s' ↔ ¬ Held s.ptAlloc f ∧ Held s'.ptAlloc f := by
  obtain ⟨given, answers, became⟩ := hands.given
  rw [answersDuring, answers, List.drop_left]
  exact became f

theorem of_same (valid : Valid s.ptAlloc) (same : s'.ptAlloc = s.ptAlloc) : Hands s s' := by
  refine ⟨same ▸ valid, fun g held => same ▸ held, [], ?_, fun g => ?_⟩
  · rw [same, List.append_nil]
  · rw [same]
    simp

theorem trans (one : Hands s s₁) (two : Hands s₁ s') : Hands s s' := by
  obtain ⟨early, before, first⟩ := one.given
  obtain ⟨late, after, second⟩ := two.given
  refine ⟨two.valid, fun g held => two.heldMono g (one.heldMono g held), early ++ late, ?_, ?_⟩
  · rw [after, before, List.append_assoc]
  · intro g
    have oneMono := one.heldMono g
    have twoMono := two.heldMono g
    rw [List.mem_append, first, second]
    tauto

theorem alloc {answer : Option PhysAddr} {al : Recorded A} {m : Mem} (valid : Valid s.ptAlloc)
    (taken : allocFrame4k s.ptAlloc s.mem = (answer, al, m)) (same : s'.ptAlloc = al) :
    Hands s s' := by
  obtain ⟨-, answers⟩ := recorded_alloc taken
  subst same
  cases answer with
  | none =>
      obtain ⟨valid', -, held⟩ := alloc_none valid taken
      refine ⟨valid', fun g => (held g).mpr, [none], answers, fun g => ?_⟩
      rw [held g]
      simp
  | some f =>
      obtain ⟨valid', -, free, held, -⟩ := alloc_some valid taken
      refine ⟨valid', fun g early => (held g).mpr (Or.inl early), [some f], answers, fun g => ?_⟩
      rw [held g, List.mem_singleton, Option.some_inj]
      constructor
      · rintro rfl
        exact ⟨free, Or.inr rfl⟩
      · rintro ⟨notYet, early | same⟩
        · exact absurd early notYet
        · exact same

end Hands

theorem map4k_hands {s : Sys (Recorded A)} (aspace : AddressSpace) (v : VirtAddr) (p : PhysAddr)
    (flags : MapFlags) (valid : Valid s.ptAlloc) :
    Hands s ((map4k aspace v p flags).exec s).2 := by
  apply @map4k_keeps (Recorded A) _ fun s s' => Valid s.ptAlloc → Hands s s'
  · exact fun s valid => .of_same valid rfl
  · intro s s' answer al m mem taken later valid
    have first : Hands s { s with ptAlloc := al, mem := mem } := .alloc valid taken rfl
    exact first.trans (later first.valid)
  · intro s s' mem ops hands valid
    exact (hands valid).trans (.of_same (hands valid).valid rfl)
  · exact valid

end RincOs
