/-
Module: RincOs.Proofs.KernelSide
Purpose: The tables of the kernel side next to the trees of the created spaces:
  those below the kernel's PML4 and below the kernel halves of the others.  Every
  operation, at any address of any space, keeps the two apart, and no table of
  the kernel side is ever given back to the allocator.
Trusted boundary: none
Main exports:
  KernelSide, SplitInv, SplitInv.new, SplitInv.destroy, SplitInv.map
-/
import RincOs.Proofs.KernelRoot

namespace RincOs

open RadixForest LawfulFrameAlloc

variable {A : Type}

/-! ### Writes outside the lower halves

`map_4k` in the kernel half of a space writes tables that the trees of the lower halves do
not contain, with one exception: the upper entries of the PML4s, which these trees share
with the kernel side. -/

/-- From `k` to `k'` no word changed that belongs to a lower half.  In a PML4 the
entries of the kernel half do not count. -/
structure KeepsLower (live : Fin maxAddressSpaces → Prop) (k k' : Machine) : Prop where
  slots : k'.asSlots = k.asSlots
  words : ∀ {b path t}, HasTable live k b path t → ∀ i, (path = [] → i < kernelPml4Start) →
    readEntry k'.mem t i = readEntry k.mem t i

namespace KeepsLower

variable {live : Fin maxAddressSpaces → Prop} {k k' : Machine}

/-- The slots of tables are among the words that count. -/
theorem nextTable_eq (keeps : KeepsLower live k k') {b : Fin maxAddressSpaces}
    {path : List (Fin entryCount)} {t : PhysAddr} {i : Fin entryCount}
    (table : HasTable live k b path t) (admitted : LowerPath 3 (path ++ [i])) :
    readEntry k'.mem t i = readEntry k.mem t i := by
  apply keeps.words table
  rintro rfl
  exact admitted.2 i rfl

theorem hasTable_iff (keeps : KeepsLower live k k') {b : Fin maxAddressSpaces}
    {path : List (Fin entryCount)} {t : PhysAddr} :
    HasTable live k' b path t ↔ HasTable live k b path t := by
  rw [HasTable, keeps.slots]
  exact Layout.at_congr fun table admitted =>
    nextTable_congr (keeps.nextTable_eq table admitted)

theorem trees (keeps : KeepsLower live k k') (before : Trees live k) : Trees live k' where
  roots alive := by
    rw [keeps.slots]
    exact before.roots alive
  forest one two := before.forest (keeps.hasTable_iff.mp one) (keeps.hasTable_iff.mp two)
  entries table admitted isPresent := by
    have old := keeps.hasTable_iff.mp table
    rw [keeps.nextTable_eq old admitted] at isPresent ⊢
    exact before.entries old admitted isPresent

end KeepsLower

/-! ### The kernel side

Creating a space copies the upper PML4 entries, so below them the spaces and the kernel
have their tables in common and these tables do not form a forest.  What is kept of them
is less: each has one level, none is in the lower half of a space, and all are reserved or
held, so that the allocator does not hand them out again. -/

section

variable [PageTableFrameAlloc A] [LawfulFrameAlloc A]

/-- Entry `i` of table `t` belongs to the kernel side and, if it points to a
table, points to one of level `l`. -/
def Side (level : Nat → PhysAddr → Prop) (k : Machine) (l : Nat) (t : PhysAddr)
    (i : Fin entryCount) : Prop :=
  level (l + 1) t ∨ l = 3 ∧ kernelPml4Start ≤ i ∧ ∃ a, Used k a ∧ t = k.rootOf a

/-- The tables of the kernel side, each with its level.  They are the reserved
tables the kernel started with and frames allocated since. -/
structure KernelSide (reserved : PhysAddr → Prop) (root : PhysAddr)
    (level : Nat → PhysAddr → Prop) (s : Sys A) : Prop where
  known : KernelAt root s.toMachine
  top : level 4 root
  isFrame : ∀ {l t}, level l t → IsFrame t
  unique : ∀ {l l' t}, level l t → level l' t → l = l'
  safe : ∀ {l t}, level l t → reserved t ∨ Held s.ptAlloc t
  apart : ∀ {l t a path}, level l t → ¬ HasTable (Used s.toMachine) s.toMachine a path t
  below : ∀ {l t i}, 0 < l → Side level s.toMachine l t i →
    LinksAt l (readEntry s.mem t i) → level l (readEntry s.mem t i &&& addrMask)

/-- The lower halves of the created spaces and the kernel side. -/
structure SplitInv (reserved : PhysAddr → Prop) (root : PhysAddr)
    (level : Nat → PhysAddr → Prop) (s : Sys A) : Prop where
  inv : RunInv s
  spares : Spares reserved s.ptAlloc
  side : KernelSide reserved root level s

namespace SplitInv

variable {reserved : PhysAddr → Prop} {root : PhysAddr} {level : Nat → PhysAddr → Prop}
variable {s s' : Sys A} {l l' : Nat} {t f : PhysAddr} {i : Fin entryCount} {al : A} {m : Mem}

/-- A frame just allocated is not on the kernel side. -/
theorem not_given (split : SplitInv reserved root level s)
    (alloc : allocFrame4k s.ptAlloc s.mem = (some f, al, m)) : ¬ level l f := by
  obtain ⟨-, -, free, held, -⟩ := alloc_some split.inv.trees.valid alloc
  intro known
  rcases split.side.safe known with isReserved | early
  · exact (split.spares.serves (.alloc .refl alloc)).held ((held f).mpr (Or.inr rfl)) isReserved
  · exact free early

/-- A table with a kernel-side entry is in a lower half only as its PML4. -/
theorem side_table (split : SplitInv reserved root level s)
    (side : Side level s.toMachine l t i) {b : Fin maxAddressSpaces}
    {path : List (Fin entryCount)} (table : HasTable (Used s.toMachine) s.toMachine b path t) :
    path = [] ∧ kernelPml4Start ≤ i := by
  rcases side with known | ⟨-, upper, a, used, rfl⟩
  · exact absurd table (split.side.apart known)
  · have top : HasTable (Used s.toMachine) s.toMachine a [] (s.rootOf a) := .root used
    exact ⟨(split.inv.trees.forest table top).2, upper⟩

theorem side_isFrame (split : SplitInv reserved root level s)
    (side : Side level s.toMachine l t i) : IsFrame t := by
  rcases side with known | ⟨-, -, a, used, rfl⟩
  · exact split.side.isFrame known
  · exact split.inv.trees.roots used

/-- The entries of one table lead to one level. -/
theorem side_unique (split : SplitInv reserved root level s)
    {j : Fin entryCount} (one : Side level s.toMachine l t i)
    (two : Side level s.toMachine l' t j) : l = l' := by
  rcases one with known | ⟨rfl, -, a, used, rfl⟩
  · rcases two with known' | ⟨-, -, b, used', rfl⟩
    · exact Nat.succ.inj (split.side.unique known known')
    · exact absurd (Layout.At.root used') (split.side.apart known)
  · rcases two with known' | ⟨rfl, -, -⟩
    · exact absurd (Layout.At.root used) (split.side.apart known')
    · rfl

/-- A table with a kernel-side entry was there before an allocation. -/
theorem side_old (split : SplitInv reserved root level s)
    (side : Side level s.toMachine l t i)
    (alloc : allocFrame4k s.ptAlloc s.mem = (some f, al, m)) : t ≠ f := by
  rintro rfl
  rcases side with known | ⟨-, -, a, used, rfl⟩
  · exact split.not_given alloc known
  · have top : HasTable (Used s.toMachine) s.toMachine a [] (s.rootOf a) := .root used
    exact (alloc_some split.inv.trees.valid alloc).2.2.1 (split.inv.trees.held top)

/-- The trees after a step that left the lower halves alone. -/
theorem runInv (split : SplitInv reserved root level s)
    (keeps : KeepsLower (Used s.toMachine) s.toMachine s'.toMachine)
    (valid : Valid s'.ptAlloc) (heldMono : ∀ {g}, Held s.ptAlloc g → Held s'.ptAlloc g)
    (handle : s'.kasHandle = s.kasHandle) : RunInv s' := by
  have used : Used s'.toMachine = Used s.toMachine := used_congr keeps.slots
  refine ⟨?_, split.inv.handles.of_slots keeps.slots (Or.inl handle)⟩
  rw [used]
  exact
    { toTrees := keeps.trees split.inv.trees.toTrees
      valid := valid
      held := fun table => heldMono (split.inv.trees.held (keeps.hasTable_iff.mp table)) }

/-- A request the allocator refuses. -/
theorem refused (split : SplitInv reserved root level s)
    (alloc : allocFrame4k s.ptAlloc s.mem = (none, al, m)) :
    SplitInv reserved root level { s with ptAlloc := al, mem := m } := by
  obtain ⟨valid, rfl, held⟩ := alloc_none split.inv.trees.valid alloc
  have keeps : KeepsLower (Used s.toMachine) s.toMachine s.toMachine := ⟨rfl, fun _ _ _ => rfl⟩
  refine ⟨split.runInv keeps valid (fun {g} early => (held g).mpr early) rfl,
    split.spares.serves (.alloc .refl alloc), ?_⟩
  exact { split.side with safe := fun known => (split.side.safe known).imp_right (held _).mpr }

/-- Linking a new table into a kernel-side entry leaves the lower halves alone. -/
theorem link_keepsLower (user : Bool) (split : SplitInv reserved root level s)
    (side : Side level s.toMachine l t i)
    (alloc : allocFrame4k s.ptAlloc s.mem = (some f, al, m)) :
    KeepsLower (Used s.toMachine) s.toMachine
      { s.toMachine with mem := linkTable m t i f user } := by
  obtain ⟨-, newFrame, free, -, outside⟩ := alloc_some split.inv.trees.valid alloc
  refine ⟨rfl, fun {b path q} table j lower => ?_⟩
  have elsewhere : ¬ (q = t ∧ j = i) := by
    rintro ⟨rfl, rfl⟩
    obtain ⟨top, upper⟩ := split.side_table side table
    exact absurd (lower top) (not_lt.mpr upper)
  have old : q ≠ f := fun same => free (same ▸ split.inv.trees.held table)
  rw [readEntry_linkTable outside (split.side_isFrame side) newFrame
    (split.inv.trees.isFrame table), if_neg elsewhere, if_neg old]

/-- A new table linked into a kernel-side entry. -/
theorem link (user : Bool) (split : SplitInv reserved root level s)
    (side : Side level s.toMachine l t i)
    (alloc : allocFrame4k s.ptAlloc s.mem = (some f, al, m)) :
    SplitInv reserved root (addLevel level l f)
      { s with ptAlloc := al, mem := linkTable m t i f user } := by
  obtain ⟨valid, newFrame, free, held, outside⟩ := alloc_some split.inv.trees.valid alloc
  have parentFrame := split.side_isFrame side
  have heldMono : ∀ {g}, Held s.ptAlloc g → Held al g :=
    fun {g} early => (held g).mpr (Or.inl early)
  have keeps := split.link_keepsLower user side alloc
  have frame : ∀ {l' q}, addLevel level l f l' q → IsFrame q := by
    rintro l' q (known | ⟨-, rfl⟩)
    · exact split.side.isFrame known
    · exact newFrame
  refine ⟨split.runInv keeps valid heldMono rfl, split.spares.serves (.alloc .refl alloc), ?_⟩
  refine
    { known := split.side.known
      top := Or.inl split.side.top
      isFrame := frame
      unique := ?unique
      safe := ?safe
      apart := ?apart
      below := ?below }
  case unique =>
    rintro l₁ l₂ q (one | ⟨rfl, rfl⟩) (two | ⟨rfl, new⟩)
    · exact split.side.unique one two
    · exact absurd (new ▸ one) (split.not_given alloc)
    · exact absurd two (split.not_given alloc)
    · rfl
  case safe =>
    rintro l' q (known | ⟨-, rfl⟩)
    · exact (split.side.safe known).imp_right heldMono
    · exact Or.inr ((held q).mpr (Or.inr rfl))
  case apart =>
    rintro l' q b path (known | ⟨-, rfl⟩) table
    · exact split.side.apart known (keeps.hasTable_iff.mp table)
    · exact free (split.inv.trees.held (keeps.hasTable_iff.mp table))
  case below =>
    intro l' q j above inSide links
    -- the entries of the new table are absent, all others were there before
    have qFrame : IsFrame q := by
      rcases inSide with known | ⟨-, -, b, used, rfl⟩
      · exact frame known
      · exact split.inv.trees.roots used
    have oldSide : q ≠ f → Side level s.toMachine l' q j := by
      intro old
      rcases inSide with (known | ⟨-, new⟩) | top
      · exact Or.inl known
      · exact absurd new old
      · exact Or.inr top
    dsimp only at links ⊢
    rcases present_linkTable outside parentFrame newFrame qFrame links.1 with
      ⟨rfl, -, linked⟩ | ⟨old, same⟩
    · rw [linked, tableEntry_and_addrMask, newFrame]
      exact Or.inr ⟨split.side_unique (oldSide (split.side_old side alloc)) side, rfl⟩
    · rw [same] at links ⊢
      exact Or.inl (split.side.below above (oldSide old) links)

theorem writeLeaf_keepsLower (split : SplitInv reserved root level s) (table : level 1 t)
    (i : Fin entryCount) (w : Word) (ops : List TlbOp) :
    KeepsLower (Used s.toMachine) s.toMachine
      { s.toMachine with mem := writeEntry s.mem t i w, tlbOps := ops } := by
  refine ⟨rfl, fun {b path q} other j _ => ?_⟩
  apply readEntry_writeEntry_ne (split.side.isFrame table) (split.inv.trees.isFrame other)
  left
  rintro rfl
  exact split.side.apart table other

/-- A write into a page table of the kernel side. -/
theorem writeLeaf (split : SplitInv reserved root level s) (table : level 1 t)
    (i : Fin entryCount) (w : Word) (ops : List TlbOp) :
    SplitInv reserved root level { s with mem := writeEntry s.mem t i w, tlbOps := ops } := by
  have frame := split.side.isFrame table
  have keeps := split.writeLeaf_keepsLower table i w ops
  refine ⟨split.runInv keeps split.inv.trees.valid id rfl, split.spares, ?_⟩
  refine
    { split.side with
      apart := fun known other => split.side.apart known (keeps.hasTable_iff.mp other)
      below := fun {l q j} above side links => ?_ }
  -- an entry above the last level is not in a page table
  have same : readEntry (writeEntry s.mem t i w) q j = readEntry s.mem q j := by
    apply readEntry_writeEntry_ne frame (split.side_isFrame side) (Or.inl _)
    rintro rfl
    have bottom : Side level s.toMachine 0 q i := Or.inl table
    have level := split.side_unique side bottom
    omega
  dsimp only at links ⊢
  rw [same] at links ⊢
  exact split.side.below above side links

end SplitInv

/-! ### Descending on the kernel side

A missing table is allocated and joins the kernel side with the level at which it is
hung in, so the assignment of levels changes along the descent.  A present entry leads to a
table only if it is no large page; `SmallPath` excludes those on the way. -/

/-- How a descent with the given indices left ends: the kernel side may have
grown, and the table found has the level for the rest, which no large page ends. -/
def SideEnds (reserved : PhysAddr → Prop) (root : PhysAddr) (rest : List (Fin entryCount)) :
    Except MapError PhysAddr × Sys A → Prop
  | (.ok t, s') => ∃ level, SplitInv reserved root level s' ∧
      level (rest.length + 1) t ∧ SmallPath s'.mem t rest
  | (.error _, s') => ∃ level, SplitInv reserved root level s'

variable {reserved : PhysAddr → Prop} {root : PhysAddr} {level : Nat → PhysAddr → Prop}
variable {s s' : Sys A}

theorem SplitInv.ensureTable {t : PhysAddr} {i : Fin entryCount} {rest : List (Fin entryCount)}
    (user : Bool) (split : SplitInv reserved root level s)
    (side : Side level s.toMachine (rest.length + 1) t i)
    (small : SmallPath s.mem t (i :: rest)) :
    SideEnds reserved root rest ((RincOs.ensureTable t i user).exec s) := by
  rw [ensureTable_exec]
  by_cases isPresent : present (readEntry s.mem t i) = true
  · obtain ⟨links, further⟩ := small isPresent
    rw [if_pos isPresent]
    exact ⟨level, split, split.side.below (Nat.succ_pos _) side links, further⟩
  · rw [if_neg isPresent]
    rcases alloc : allocFrame4k s.ptAlloc s.mem with ⟨_ | f, al, m⟩
    · exact ⟨level, split.refused alloc⟩
    · obtain ⟨-, newFrame, -, -, outside⟩ := alloc_some split.inv.trees.valid alloc
      have zero : ∀ j, readEntry (linkTable m t i f user) f j = 0 :=
        readEntry_linkTable_new outside (split.side_isFrame side) newFrame
          (split.side_old side alloc).symm
      exact ⟨_, split.link user side alloc, Or.inr ⟨rfl, rfl⟩, smallPath_of_zero zero rest⟩

theorem SplitInv.ensurePath {t : PhysAddr} {path : List (Fin entryCount)} (user : Bool)
    (split : SplitInv reserved root level s) (table : level (path.length + 1) t)
    (small : SmallPath s.mem t path) :
    SideEnds reserved root [] ((RincOs.ensurePath user t path).exec s) := by
  induction path generalizing s t level with
  | nil => exact ⟨level, split, table, trivial⟩
  | cons i rest inductionHypothesis =>
      have first : SideEnds reserved root rest _ :=
        split.ensureTable user (Or.inl table) small
      rw [RincOs.ensurePath, MmuM.exec_bind]
      generalize (RincOs.ensureTable t i user).exec s = outcome at first
      obtain ⟨e | child, s₁⟩ := outcome
      · exact first
      · obtain ⟨level₁, split₁, child₁, small₁⟩ := first
        exact inductionHypothesis split₁ child₁ small₁

/-! ### The operations -/

/-- `map_4k` at an address whose way starts on the kernel side. -/
theorem SplitInv.map_side {aspace : AddressSpace} {v : VirtAddr} (p : PhysAddr)
    (flags : MapFlags) (split : SplitInv reserved root level s)
    (side : Side level s.toMachine 3 (s.asX86 aspace).pml4Phys (pml4Index v))
    (small : largePage s.mem (s.asX86 aspace).pml4Phys v = false) :
    ∃ level', SplitInv reserved root level' ((map4k aspace v p flags).exec s).2 := by
  rw [map4k_exec]
  split
  · exact ⟨level, split⟩
  split
  · exact ⟨level, split⟩
  have first : SideEnds reserved root [pdptIndex v, pdIndex v] _ :=
    split.ensureTable (flags.contains .user) side (smallPath_of_small small)
  rw [tablePath, RincOs.ensurePath, MmuM.exec_bind]
  generalize (RincOs.ensureTable _ (pml4Index v) _).exec s = outcome at first
  obtain ⟨e | child, s₁⟩ := outcome
  · exact first
  · obtain ⟨level₁, split₁, child₁, small₁⟩ := first
    have further := split₁.ensurePath (flags.contains .user) child₁ small₁
    dsimp only
    generalize (RincOs.ensurePath _ child _).exec s₁ = outcome at further
    obtain ⟨e | pt, s₂⟩ := outcome
    · exact further
    · obtain ⟨level₂, split₂, table, -⟩ := further
      dsimp only
      rw [mapLeaf]
      split
      · exact ⟨level₂, split₂⟩
      · exact ⟨level₂, split₂.writeLeaf table _ _ _⟩

/-- The kernel side after a step that wrote only tables of lower halves and new
frames, and left the kernel halves of the PML4s alone. -/
theorem SplitInv.sideKept (split : SplitInv reserved root level s)
    (known : KernelAt root s'.toMachine)
    (heldMono : ∀ {l t}, level l t → Held s.ptAlloc t → Held s'.ptAlloc t)
    (words : ∀ {l t}, level l t → ∀ i, readEntry s'.mem t i = readEntry s.mem t i)
    (apart : ∀ {l t a path}, level l t → ¬ HasTable (Used s'.toMachine) s'.toMachine a path t)
    (upper : ∀ {a}, Used s'.toMachine a → ∀ i, kernelPml4Start ≤ i →
      (Used s.toMachine a ∧ readEntry s'.mem (s'.rootOf a) i = readEntry s.mem (s.rootOf a) i) ∨
        readEntry s'.mem (s'.rootOf a) i = readEntry s.mem root i) :
    KernelSide reserved root level s' where
  known := known
  top := split.side.top
  isFrame := split.side.isFrame
  unique := split.side.unique
  safe known := (split.side.safe known).imp_right (heldMono known)
  apart := apart
  below {l t i} above side links := by
    rcases side with table | ⟨rfl, high, a, used, rfl⟩
    · rw [words table] at links ⊢
      exact split.side.below above (Or.inl table) links
    · rcases upper used i high with ⟨old, same⟩ | same
      · rw [same] at links ⊢
        exact split.side.below above (Or.inr ⟨rfl, high, a, old, rfl⟩) links
      · rw [same] at links ⊢
        exact split.side.below above (Or.inl split.side.top) links

/-- Tables of lower halves and frames not held before are not on the kernel side. -/
theorem SplitInv.side_words {l : Nat} {t : PhysAddr} {a : Fin maxAddressSpaces}
    (split : SplitInv reserved root level s) (spares : Spares reserved s'.ptAlloc)
    (frame : ∀ x, s'.mem x = s.mem x ∨ ∃ t, IsFrame t ∧ InFrame t x ∧
      ((∃ path, HasTable (Used s.toMachine) s.toMachine a path t) ∨
        ¬ Held s.ptAlloc t ∧ Held s'.ptAlloc t))
    (table : level l t) (i : Fin entryCount) : readEntry s'.mem t i = readEntry s.mem t i := by
  rcases frame (entryAddr t i) with same | ⟨f, isFrame, inside, written⟩
  · exact same
  · obtain rfl := (inFrame_entryAddr_iff (split.side.isFrame table) isFrame i).mp inside
    rcases written with ⟨path, other⟩ | ⟨free, held⟩
    · exact absurd other (split.side.apart table)
    · rcases split.side.safe table with isReserved | early
      · exact absurd isReserved (spares.held held)
      · exact absurd early free

/-- A step in a lower half: the tables it adds were not held before, and the kernel halves
of all PML4s stay. -/
structure KernelHalfKept (s s' : Sys A) : Prop where
  tables : ∀ {b path t}, HasTable (Used s.toMachine) s'.toMachine b path t →
    HasTable (Used s.toMachine) s.toMachine b path t ∨ ¬ Held s.ptAlloc t
  words : ∀ {b}, Used s.toMachine b → ∀ i, kernelPml4Start ≤ i →
    readEntry s'.mem (s.rootOf b) i = readEntry s.mem (s.rootOf b) i

theorem Extends.kernelHalf {a : Fin maxAddressSpaces} {user : Bool}
    (ext : Extends (Used s.toMachine) a user s s') : KernelHalfKept s s' where
  tables table := (ext.fresh table).imp_right fun new => new.2.2.1
  words {b} used i upper := by
    have top : HasTable (Used s.toMachine) s.toMachine b [] (s.rootOf b) := .root used
    rcases ext.words top i with same | ⟨-, admitted, -⟩
    · exact same
    · exact absurd (admitted.2 i rfl) (not_lt.mpr upper)

/-- A leaf write after such a step. -/
theorem KernelHalfKept.write {a : Fin maxAddressSpaces} {v : VirtAddr} {e : Word} {s₁ : Sys A}
    (kept : KernelHalfKept s s₁) (trees : Trees (Used s.toMachine) s₁.toMachine)
    (slots : s₁.asSlots = s.asSlots)
    (writes : WritesLeaf (Used s.toMachine) a v e s₁ s') : KernelHalfKept s s' where
  tables table := kept.tables ((writes.write.hasTable_iff trees).mp table)
  words {b} used i upper := by
    have top : HasTable (Used s.toMachine) s₁.toMachine b [] (s₁.rootOf b) := .root used
    have sameRoot : s₁.rootOf b = s.rootOf b := by rw [Machine.rootOf, Machine.rootOf, slots]
    rw [sameRoot] at top
    rw [writes.write.read trees top, if_neg]
    · exact kept.words used i upper
    · rintro ⟨-, shallow, -⟩
      cases shallow

theorem MapEnds.kernelHalf {a : Fin maxAddressSpaces} {v : VirtAddr} {p : PhysAddr}
    {flags : MapFlags} {result : Except MapError PUnit}
    (ends : MapEnds (Used s.toMachine) a v p flags s (result, s')) : KernelHalfKept s s' := by
  cases ends with
  | unaligned => exact ⟨Or.inl, fun _ _ _ => rfl⟩
  | outOfMemory _ ext => exact ext.kernelHalf
  | alreadyMapped _ ext => exact ext.kernelHalf
  | ok _ ext _ writes => exact ext.kernelHalf.write ext.inv.toTrees ext.asSlots writes

theorem ReplaceEnds.kernelHalf {a : Fin maxAddressSpaces} {v : VirtAddr}
    {update : Bool → Word → Word} {result : Except MapError PUnit}
    (trees : Trees (Used s.toMachine) s.toMachine)
    (ends : ReplaceEnds (Used s.toMachine) a v update s (result, s')) : KernelHalfKept s s' := by
  have same : KernelHalfKept s s := ⟨Or.inl, fun _ _ _ => rfl⟩
  cases ends with
  | unaligned => exact same
  | notMapped => exact same
  | ok _ _ writes => exact same.write trees rfl writes

/-- The two sides after a step in a lower half. -/
theorem SplitInv.lowerStep {a : Fin maxAddressSpaces} (split : SplitInv reserved root level s)
    (step : LowerStep (Used s.toMachine) a s s') (after : RunInv s')
    (spares : Spares reserved s'.ptAlloc) (kept : KernelHalfKept s s') :
    SplitInv reserved root level s' := by
  have inUse : Used s'.toMachine = Used s.toMachine := used_congr step.slots
  refine ⟨after, spares, split.sideKept ?_ (fun _ => step.heldMono)
    (split.side_words spares step.frame) ?_ ?_⟩
  · rw [KernelAt, step.kernel.1, step.kernel.2]
    exact split.side.known
  · intro l t b path known table
    rw [inUse] at table
    rcases kept.tables table with old | free
    · exact split.side.apart known old
    · rcases split.side.safe known with isReserved | held
      · rw [← inUse] at table
        exact spares.held (after.trees.held table) isReserved
      · exact free held
  · intro b usedAfter i upper
    rw [inUse] at usedAfter
    have roots : s'.rootOf b = s.rootOf b := by
      rw [Machine.rootOf, Machine.rootOf, step.slots]
    rw [roots]
    exact Or.inl ⟨usedAfter, kept.words usedAfter i upper⟩

theorem SplitInv.map_lower {a : Fin maxAddressSpaces} {v : VirtAddr} (p : PhysAddr)
    (flags : MapFlags) (split : SplitInv reserved root level s) (used : Used s.toMachine a)
    (lower : LowerHalf v) :
    SplitInv reserved root level ((map4k (.slot a) v p flags).exec s).2 := by
  have ends := map4k_lower split.inv.trees used lower p flags
  have may : LowerCall s.toMachine (.map (.slot a) v p flags) := ⟨a, rfl, used, lower⟩
  exact split.lowerStep (ends.lowerStep split.inv.trees) (lowerCall_step split.inv may rfl).inv
    (split.spares.serves (map4k_serves (.slot a) v p flags s)) ends.kernelHalf

/-- The page table the backend finds when its way starts on the kernel side. -/
theorem SplitInv.walk_side {t pt : PhysAddr} {v : VirtAddr}
    (split : SplitInv reserved root level s) (side : Side level s.toMachine 3 t (pml4Index v))
    (small : largePage s.mem t v = false) (found : walkToPt s.mem t v = some pt) :
    level 1 pt := by
  rw [walkToPt_eq_walk, tablePath, walk_cons, Option.bind_eq_some_iff] at found
  obtain ⟨child, slot, walked⟩ := found
  obtain ⟨isPresent, rfl⟩ := nextTable_eq_some.mp slot
  obtain ⟨links, rest⟩ := smallPath_of_small small isPresent
  have top := split.side.below (by decide) side links
  exact walk_level (fun above table => split.side.below above (Or.inl table)) walked rest top

theorem SplitInv.replace_side {aspace : AddressSpace} {v : VirtAddr}
    (update : Bool → Word → Word) (split : SplitInv reserved root level s)
    (side : Side level s.toMachine 3 (s.asX86 aspace).pml4Phys (pml4Index v))
    (small : largePage s.mem (s.asX86 aspace).pml4Phys v = false) :
    SplitInv reserved root level ((replaceLeaf aspace v update).exec s).2 := by
  rcases replaceLeaf_cases aspace v update s with same | ⟨pt, w, found, written⟩
  · rw [same]
    exact split
  · rw [written]
    exact split.writeLeaf (split.walk_side side small found) _ _ _

theorem SplitInv.replace_lower {a : Fin maxAddressSpaces} {v : VirtAddr}
    (update : Bool → Word → Word) (split : SplitInv reserved root level s)
    (used : Used s.toMachine a) (lower : LowerHalf v) :
    SplitInv reserved root level ((replaceLeaf (.slot a) v update).exec s).2 := by
  have ends : ReplaceEnds (Used s.toMachine) a v update s _ :=
    replaceLeaf_lower used lower update
  have step := ends.lowerStep split.inv.trees
  refine split.lowerStep step ⟨?_, ?_⟩ ?_ (ends.kernelHalf split.inv.trees.toTrees)
  · rw [used_congr step.slots]
    exact step.inv
  · exact split.inv.handles.of_slots step.slots (Or.inl step.kernel.2)
  · rw [replaceLeaf_ptAlloc]
    exact split.spares

/-- A space and an address: the way starts in the lower half of a created space or on the
kernel side. -/
theorem SplitInv.starts {aspace : AddressSpace} {v : VirtAddr}
    (split : SplitInv reserved root level s) (live : LiveSpace s.toMachine aspace)
    (canonical : isCanonical v = true) :
    (∃ a, aspace = .slot a ∧ Used s.toMachine a ∧ LowerHalf v) ∨
      Side level s.toMachine 3 (s.asX86 aspace).pml4Phys (pml4Index v) := by
  cases aspace with
  | kas =>
      have top : (s.asX86 .kas).pml4Phys = root := by
        rw [Machine.asX86, split.side.known.2, Option.getD_some]
      rw [top]
      exact Or.inr (Or.inl split.side.top)
  | slot a =>
      rcases lowerHalf_or_kernel canonical with lower | upper
      · exact Or.inl ⟨a, rfl, live, lower⟩
      · exact Or.inr (Or.inr ⟨rfl, upper, a, live, rfl⟩)

/-- `map_4k` in any live space, the kernel's included, at any address that no
large page covers. -/
theorem SplitInv.map {aspace : AddressSpace} {v : VirtAddr} (p : PhysAddr) (flags : MapFlags)
    (split : SplitInv reserved root level s) (live : LiveSpace s.toMachine aspace)
    (small : largePage s.mem (s.asX86 aspace).pml4Phys v = false) :
    ∃ level', SplitInv reserved root level' ((map4k aspace v p flags).exec s).2 := by
  cases canonical : isCanonical v with
  | true =>
      rcases split.starts live canonical with ⟨a, rfl, used, lower⟩ | side
      · exact ⟨level, split.map_lower p flags used lower⟩
      · exact split.map_side p flags side small
  | false =>
      -- refused before anything is touched
      rw [map4k_exec, canonical]
      split
      · exact ⟨level, split⟩
      · exact ⟨level, split⟩

/-- `unmap_4k` and `protect_4k` likewise. -/
theorem SplitInv.replace {aspace : AddressSpace} {v : VirtAddr} (update : Bool → Word → Word)
    (split : SplitInv reserved root level s) (live : LiveSpace s.toMachine aspace)
    (small : largePage s.mem (s.asX86 aspace).pml4Phys v = false) :
    SplitInv reserved root level ((replaceLeaf aspace v update).exec s).2 := by
  cases canonical : isCanonical v with
  | true =>
      rcases split.starts live canonical with ⟨a, rfl, used, lower⟩ | side
      · exact split.replace_lower update used lower
      · exact split.replace_side update side small
  | false =>
      rw [replaceLeaf_exec, canonical]
      split
      · exact split
      · exact split

section

variable {f : PhysAddr} {al : A} {m : Mem}

/-- Filling a new PML4 leaves the kernel side alone, -/
theorem SplitInv.words_newRoot (split : SplitInv reserved root level s)
    (alloc : allocFrame4k s.ptAlloc s.mem = (some f, al, m)) {l : Nat} {t : PhysAddr}
    (table : level l t) (i : Fin entryCount) :
    readEntry (newRootMem m root f) t i = readEntry s.mem t i := by
  obtain ⟨-, newFrame, -, -, outside⟩ := alloc_some split.inv.trees.valid alloc
  have apart : ¬ InFrame f (entryAddr t i) := by
    rw [inFrame_entryAddr_iff (split.side.isFrame table) newFrame]
    rintro rfl
    exact split.not_given alloc table
  exact (newRootMem_outside apart).trans (outside _ apart)

/-- and the trees. -/
theorem SplitInv.read_newRoot (split : SplitInv reserved root level s)
    (alloc : allocFrame4k s.ptAlloc s.mem = (some f, al, m)) {b : Fin maxAddressSpaces}
    {path : List (Fin entryCount)} {t : PhysAddr}
    (table : HasTable (Used s.toMachine) s.toMachine b path t) (i : Fin entryCount) :
    readEntry (newRootMem m root f) t i = readEntry s.mem t i := by
  obtain ⟨-, newFrame, free, -, outside⟩ := alloc_some split.inv.trees.valid alloc
  exact split.inv.trees.read_outside newFrame free
    (fun x out => (newRootMem_outside out).trans (outside x out)) table i

/-- A filled PML4 that no slot was left for. -/
theorem SplitInv.leaked (split : SplitInv reserved root level s)
    (alloc : allocFrame4k s.ptAlloc s.mem = (some f, al, m)) :
    KernelSide reserved root level
      { s with ptAlloc := al, mem := newRootMem m root f } := by
  obtain ⟨-, -, -, held, -⟩ := alloc_some split.inv.trees.valid alloc
  have keeps : KeepsLower (Used s.toMachine) s.toMachine
      { s.toMachine with mem := newRootMem m root f } :=
    ⟨rfl, fun old j _ => split.read_newRoot alloc old j⟩
  refine split.sideKept split.side.known ?held (split.words_newRoot alloc) ?apart ?upper
  case held => exact fun _ early => (held _).mpr (Or.inl early)
  case apart => exact fun known table => split.side.apart known (keeps.hasTable_iff.mp table)
  case upper =>
    intro b used j _
    exact Or.inl ⟨used, split.read_newRoot alloc (Layout.At.root used) j⟩

/-- A filled PML4 in a slot that was free. -/
theorem SplitInv.newSpace {i : Fin maxAddressSpaces} (split : SplitInv reserved root level s)
    (unused : (s.asSlots i).used = false)
    (alloc : allocFrame4k s.ptAlloc s.mem = (some f, al, m)) :
    KernelSide reserved root level
      { s with
        ptAlloc := al
        mem := newRootMem m root f
        asSlots := Function.update s.asSlots i (newSlot i f) } := by
  obtain ⟨-, -, -, held, -⟩ := alloc_some split.inv.trees.valid alloc
  have vacant : ¬ Used s.toMachine i := by simp [Used, unused]
  have plant := newRoot_plant vacant (split.read_newRoot alloc)
  have apart : root ≠ f := fun same => split.not_given alloc (same ▸ split.side.top)
  refine split.sideKept split.side.known ?held (split.words_newRoot alloc) ?apart ?upper
  case held => exact fun _ early => (held _).mpr (Or.inl early)
  case apart =>
    intro l t b path known table
    rw [HasTable, used_newSlot rfl] at table
    rcases plant.at_iff.mp table with old | ⟨-, -, rfl⟩
    · exact split.side.apart known old
    · exact split.not_given alloc known
  case upper =>
    intro b used j upper
    by_cases new : b = i
    · right
      subst new
      have top : (Function.update s.asSlots b (newSlot b f) b).space.pml4Phys = f := by
        simp [newSlot]
      rw [Machine.rootOf, top]
      exact readEntry_newRoot split.inv.trees.valid alloc
        (split.side.isFrame split.side.top) apart upper
    · left
      have old : Used s.toMachine b := by simpa [Used, new] using used
      have top : (Function.update s.asSlots i (newSlot i f) b).space.pml4Phys = s.rootOf b := by
        simp [new]
      rw [Machine.rootOf, top]
      exact ⟨old, split.read_newRoot alloc (Layout.At.root old) j⟩

end

theorem SplitInv.new (cpu : Cpu) (split : SplitInv reserved root level s) :
    SplitInv reserved root level ((addressSpaceNew cpu).exec s).2 := by
  have may : LowerCall s.toMachine (.new cpu) := trivial
  have after : RunInv ((addressSpaceNew cpu).exec s).2 := (lowerCall_step split.inv may rfl).inv
  have spares := split.spares.serves (addressSpaceNew_serves cpu s)
  refine ⟨after, spares, ?_⟩
  rw [addressSpaceNew_adopted cpu split.side.known.1 split.side.known.2]
  rcases newFromKernel_cases root s with
    ⟨al, m, alloc, ends⟩ | ⟨f, al, m, alloc, ⟨-, ends⟩ | ⟨i, unused, ends⟩⟩
  · rw [ends]
    exact (split.refused alloc).side
  · rw [ends]
    exact split.leaked alloc
  · rw [ends]
    exact split.newSpace unused alloc

/-- Frames that are not freed stay held. -/
theorem Destroys.held_kept {live : Fin maxAddressSpaces → Prop} {a : Fin maxAddressSpaces}
    (destroys : Destroys live a s s') (inv : TreesInv live s) (alive : live a) {g : PhysAddr}
    (held : Held s.ptAlloc g) (other : ∀ path, ¬ HasTable live s.toMachine a path g) :
    Held s'.ptAlloc g := by
  have frames := @Trees.mem_destroyedFrames live s.toMachine a inv.toTrees alive
  rw [destroys.freed]
  apply (free_all _ inv.valid (inv.destroyedFrames_nodup alive) _).2.1 g _ held
  · intro f inside
    obtain ⟨path, table⟩ := frames.mp inside
    exact inv.held table
  · intro inside
    obtain ⟨path, table⟩ := frames.mp inside
    exact other path table

theorem SplitInv.destroy {a : Fin maxAddressSpaces} (split : SplitInv reserved root level s)
    (used : Used s.toMachine a) :
    SplitInv reserved root level (addressSpaceDestroy (.slot a) s) := by
  have may : LowerCall s.toMachine (.destroy (.slot a)) := ⟨a, rfl, used⟩
  have after : RunInv (addressSpaceDestroy (.slot a) s) := (lowerCall_step split.inv may rfl).inv
  have destroys := addressSpaceDestroy_spec split.inv.trees split.inv.handles used used
  have serves := addressSpaceDestroy_serves split.inv used
  generalize addressSpaceDestroy (.slot a) s = s' at after destroys serves
  have mem : s'.mem = s.mem := by rw [destroys.machine]
  refine ⟨after, split.spares.serves serves, ?_⟩
  refine split.sideKept ?known ?held (fun _ _ => by rw [mem]) ?apart ?upper
  case known =>
    rw [KernelAt, destroys.machine]
    exact split.side.known
  case held =>
    intro l t known held
    exact destroys.held_kept split.inv.trees used held fun path => split.side.apart known
  case apart =>
    intro l t b path known table
    rw [destroys.used] at table
    exact split.side.apart known (HasTable.mono And.left (destroys.keeps.hasTable_iff.mp table))
  case upper =>
    intro b inUse i _
    rw [destroys.used] at inUse
    left
    rw [mem, Machine.rootOf, destroys.keeps.roots inUse]
    exact ⟨inUse.1, rfl⟩

/-- `activate` touches nothing of either side. -/
theorem SplitInv.activate (split : SplitInv reserved root level s) (index : Fin maxCpus)
    (aspace : AddressSpace) :
    SplitInv reserved root level
      { s with toMachine := (s.toMachine.activate index aspace).2 } where
  inv := split.inv.activate index aspace
  spares := split.spares
  side :=
    { known := split.side.known
      top := split.side.top
      isFrame := split.side.isFrame
      unique := split.side.unique
      safe := split.side.safe
      apart := split.side.apart
      below := split.side.below }

/-- The tables below the kernel's PML4 are on the kernel side. -/
theorem SplitInv.kernel_tableAt {l : Nat} {t : PhysAddr} (split : SplitInv reserved root level s)
    (table : TableAt s.mem root l t) : level l t := by
  induction table with
  | pml4 => exact split.side.top
  | pdpt i entry =>
      exact split.side.below (by decide) (Or.inl split.side.top) ⟨entry, Or.inl rfl⟩
  | inner _ _ i entry small inductionHypothesis =>
      exact split.side.below (Nat.succ_pos _) (Or.inl inductionHypothesis)
        ⟨entry, Or.inr (Bool.eq_false_iff.mpr small)⟩

/-- Before any space is created the kernel side is what the processor reaches
from the kernel's root. -/
theorem NoSpaces.splitInv {mem : Mem} (start : NoSpaces s) (memory : s.mem = mem)
    (known : KernelAt root s.toMachine) (rootFrame : IsFrame root)
    (spares : Spares (IsTable mem root) s.ptAlloc)
    (oneLevel : ∀ {l l' t}, TableAt mem root l t → TableAt mem root l' t → l = l') :
    SplitInv (IsTable mem root) root (TableAt mem root) s where
  inv := start.runInv
  spares := spares
  side :=
    { known := known
      top := .pml4
      isFrame := fun table => IsTable.isFrame rootFrame ⟨_, table⟩
      unique := oneLevel
      safe := fun table => Or.inl ⟨_, table⟩
      apart := fun {l t a path} _ table => start.unused a table.live
      below := fun {l t i} above side links => by
        rcases side with table | ⟨-, -, a, used, -⟩
        · rw [memory] at links ⊢
          exact tableAt_of_links above table links
        · exact absurd used (start.unused a) }

end

end RincOs
