/-
Module: RincOs.Proofs.LowerForest
Purpose: The lower halves of the address spaces as one forest of page tables.
  The invariant says that no table frame is used twice and that the allocator
  knows all of them as held; creating tables and writing leaf entries keep it
  and touch nothing else.
Trusted boundary: none
Main exports:
  nextTable, lowerLayout, HasTable, TreesInv, Extends, present_linkTable,
  link_extends, ensurePath_spec
-/
import RincOs.Library.RadixForest
import RincOs.Proofs.Operations

namespace RincOs

open RadixForest LawfulFrameAlloc

variable {A : Type}

/-! ### Tables and paths -/

/-- The table that entry `i` of table `t` points to, as the backend follows it. -/
def nextTable (m : Mem) (t : PhysAddr) (i : Fin entryCount) : Option PhysAddr :=
  if present (readEntry m t i) then some (readEntry m t i &&& addrMask) else none

theorem nextTable_eq_some {m : Mem} {t child : PhysAddr} {i : Fin entryCount} :
    nextTable m t i = some child ↔
      present (readEntry m t i) = true ∧ readEntry m t i &&& addrMask = child := by
  simp [nextTable]

theorem nextTable_eq_none {m : Mem} {t : PhysAddr} {i : Fin entryCount} :
    nextTable m t i = none ↔ present (readEntry m t i) = false := by
  simp [nextTable]

theorem nextTable_congr {m m' : Mem} {t : PhysAddr} {i : Fin entryCount}
    (same : readEntry m' t i = readEntry m t i) : nextTable m' t i = nextTable m t i := by
  rw [nextTable, nextTable, same]

theorem walkToPt_eq_walk (m : Mem) (root : PhysAddr) (v : VirtAddr) :
    walkToPt m root v = walk (nextTable m) root (tablePath v) := by
  simp only [walkToPt, tablePath, walk_cons, walk_nil, nextTable]
  cases present (readEntry m root (pml4Index v)) with
  | false => rfl
  | true =>
      simp only [Bool.not_true, Bool.false_eq_true, if_false, if_true, Option.bind_some]
      split <;> simp_all
      split <;> simp_all

/-- Paths of at most `depth` indices that stay in the lower half. -/
def LowerPath (depth : Nat) (path : List (Fin entryCount)) : Prop :=
  path.length ≤ depth ∧ ∀ i ∈ path.head?, i < kernelPml4Start

theorem LowerPath.parent {depth : Nat} {path : List (Fin entryCount)}
    {i : Fin entryCount} (long : LowerPath (depth + 1) (path ++ [i])) :
    LowerPath depth path := by
  obtain ⟨length, head⟩ := long
  refine ⟨by simpa using length, fun j first => head j ?_⟩
  cases path with
  | nil => simp at first
  | cons k path => simpa using first

theorem LowerPath.mono {short long : Nat} {path : List (Fin entryCount)}
    (le : short ≤ long) (lower : LowerPath short path) : LowerPath long path :=
  ⟨lower.1.trans le, lower.2⟩

/-- One step down a path. -/
theorem LowerPath.next {depth : Nat} {above rest : List (Fin entryCount)}
    {i : Fin entryCount} (lower : LowerPath depth (above ++ i :: rest)) :
    LowerPath depth (above ++ [i]) ∧ LowerPath depth ((above ++ [i]) ++ rest) := by
  obtain ⟨length, head⟩ := lower
  refine ⟨⟨?_, fun j first => head j ?_⟩, by simpa using length, by simpa using head⟩
  · simp only [List.length_append, List.length_cons, List.length_nil] at length ⊢
    omega
  · cases above with
    | nil => simpa using first
    | cons k above => simpa using first

theorem LowerHalf.tablePath {v : VirtAddr} (lower : LowerHalf v) :
    LowerPath 3 (tablePath v) :=
  ⟨by simp [RincOs.tablePath], fun i first => by
    simp only [RincOs.tablePath, List.head?_cons, Option.mem_some] at first
    exact first ▸ lower.pml4Index_lt⟩

/-- The trees below the live slots.  PDPTs, PDs and PTs are the positions of
one to three indices; the kernel half of a PML4 does not count. -/
def lowerLayout (live : Fin maxAddressSpaces → Prop)
    (slots : Fin maxAddressSpaces → AddressSpaceSlot) :
    Layout (Fin maxAddressSpaces) PhysAddr (Fin entryCount) where
  live := live
  root i := (slots i).space.pml4Phys
  admits := LowerPath 3
  admits_nil := ⟨by decide, by simp⟩
  admits_parent long :=
    have above : LowerPath 2 _ := long.parent
    above.mono (by decide)

/-- Address space `a` has the table `t` at position `path` of its lower half. -/
abbrev HasTable (live : Fin maxAddressSpaces → Prop) (k : Machine)
    (a : Fin maxAddressSpaces) (path : List (Fin entryCount)) (t : PhysAddr) : Prop :=
  (lowerLayout live k.asSlots).At (nextTable k.mem) a path t

/-- The memory and the slots hold a forest of lower-half tables: every table is
a frame, no table occurs twice, and what `ensure_table` finds present it wrote
itself. -/
structure Trees (live : Fin maxAddressSpaces → Prop) (k : Machine) : Prop where
  roots : ∀ {a}, live a → IsFrame (k.asSlots a).space.pml4Phys
  forest : (lowerLayout live k.asSlots).Forest (nextTable k.mem)
  entries : ∀ {a path t i}, HasTable live k a path t → LowerPath 3 (path ++ [i]) →
    present (readEntry k.mem t i) = true → IsTableEntry (readEntry k.mem t i)

theorem Trees.isFrame {live : Fin maxAddressSpaces → Prop} {k : Machine}
    (trees : Trees live k) {a : Fin maxAddressSpaces} {path : List (Fin entryCount)}
    {t : PhysAddr} (table : HasTable live k a path t) : IsFrame t := by
  cases path using List.reverseRecOn with
  | nil =>
      have same : (k.asSlots a).space.pml4Phys = t := Option.some.inj table.reached
      exact same ▸ trees.roots table.live
  | append_singleton path i _ =>
      obtain ⟨parent, -, slot⟩ := table.parent
      rw [← (nextTable_eq_some.mp slot).2]
      exact isFrame_and_addrMask _

theorem HasTable.mono {live part : Fin maxAddressSpaces → Prop} {k : Machine}
    {a : Fin maxAddressSpaces} {path : List (Fin entryCount)} {t : PhysAddr}
    (sub : ∀ {b}, part b → live b) (table : HasTable part k a path t) :
    HasTable live k a path t :=
  ⟨sub table.live, table.admitted, table.reached⟩

/-- A part of a forest is a forest. -/
theorem Trees.mono {live part : Fin maxAddressSpaces → Prop} {k : Machine}
    (trees : Trees live k) (sub : ∀ {b}, part b → live b) : Trees part k where
  roots alive := trees.roots (sub alive)
  forest one two := trees.forest (HasTable.mono sub one) (HasTable.mono sub two)
  entries table := trees.entries (HasTable.mono sub table)

/-- From `k` to `k'` no word of any table of the given spaces changed. -/
structure Keeps (live : Fin maxAddressSpaces → Prop) (k k' : Machine) : Prop where
  roots : ∀ {b}, live b →
    (k'.asSlots b).space.pml4Phys = (k.asSlots b).space.pml4Phys
  words : ∀ {b path t}, HasTable live k b path t →
    ∀ i, readEntry k'.mem t i = readEntry k.mem t i

namespace Keeps

variable {live : Fin maxAddressSpaces → Prop} {k k' : Machine}

theorem hasTable_iff (keeps : Keeps live k k') {b : Fin maxAddressSpaces}
    {path : List (Fin entryCount)} {t : PhysAddr} :
    HasTable live k' b path t ↔ HasTable live k b path t := by
  have walks : ∀ {c : Fin maxAddressSpaces} {rest : List (Fin entryCount)},
      live c → LowerPath 3 rest →
      walk (nextTable k'.mem) (k'.asSlots c).space.pml4Phys rest =
        walk (nextTable k.mem) (k.asSlots c).space.pml4Phys rest := by
    intro c rest alive admitted
    rw [keeps.roots alive]
    exact (lowerLayout live k.asSlots).walk_congr
      (fun table _ => nextTable_congr (keeps.words table _)) alive admitted
  constructor
  · intro table
    exact ⟨table.live, table.admitted,
      (walks table.live table.admitted).symm.trans table.reached⟩
  · intro table
    exact ⟨table.live, table.admitted,
      (walks table.live table.admitted).trans table.reached⟩

theorem trans {k'' : Machine} (one : Keeps live k k') (two : Keeps live k' k'') :
    Keeps live k k'' where
  roots alive := (two.roots alive).trans (one.roots alive)
  words table i := (two.words (one.hasTable_iff.mpr table) i).trans (one.words table i)

theorem mono {part : Fin maxAddressSpaces → Prop} (keeps : Keeps live k k')
    (sub : ∀ {b}, part b → live b) : Keeps part k k' where
  roots alive := keeps.roots (sub alive)
  words table := keeps.words (HasTable.mono sub table)

theorem trees (keeps : Keeps live k k') (before : Trees live k) : Trees live k' where
  roots alive := keeps.roots alive ▸ before.roots alive
  forest one two := before.forest (keeps.hasTable_iff.mp one) (keeps.hasTable_iff.mp two)
  entries table admitted isPresent := by
    have old := keeps.hasTable_iff.mp table
    rw [keeps.words old] at isPresent ⊢
    exact before.entries old admitted isPresent

end Keeps

/-- The allocator knows every table of the live trees as held. -/
structure TreesInv [PageTableFrameAlloc A] [LawfulFrameAlloc A]
    (live : Fin maxAddressSpaces → Prop) (s : Sys A) : Prop
    extends Trees live s.toMachine where
  valid : Valid s.ptAlloc
  held : ∀ {a path t}, HasTable live s.toMachine a path t → Held s.ptAlloc t

section

variable [PageTableFrameAlloc A] [LawfulFrameAlloc A]
variable {live : Fin maxAddressSpaces → Prop} {a : Fin maxAddressSpaces}
variable {user : Bool} {s s₁ s₂ s' : Sys A}

/-! ### Creating tables -/

/-- The word of a slot before and after tables were created: it changes only
from absent to the entry of a new table. -/
def Created (user : Bool) (path : List (Fin entryCount)) (i : Fin entryCount)
    (before after : Word) : Prop :=
  LowerPath 3 (path ++ [i]) ∧ present before = false ∧
    ∃ g, after = tableEntry g user

/-- `s'` is `s` after some tables were created for address space `a`. -/
structure Extends (live : Fin maxAddressSpaces → Prop) (a : Fin maxAddressSpaces)
    (user : Bool) (s s' : Sys A) : Prop where
  inv : TreesInv live s'
  rest : s' = { s with mem := s'.mem, ptAlloc := s'.ptAlloc }
  heldMono : ∀ {g}, Held s.ptAlloc g → Held s'.ptAlloc g
  positions : ∀ {b path t}, HasTable live s.toMachine b path t →
    HasTable live s'.toMachine b path t
  words : ∀ {b path t}, HasTable live s.toMachine b path t → ∀ i,
    readEntry s'.mem t i = readEntry s.mem t i ∨
      b = a ∧ Created user path i (readEntry s.mem t i) (readEntry s'.mem t i)
  fresh : ∀ {b path t}, HasTable live s'.toMachine b path t →
    HasTable live s.toMachine b path t ∨
      b = a ∧ path ≠ [] ∧ ¬ Held s.ptAlloc t ∧ ∀ i, readEntry s'.mem t i = 0 ∨
        Created user path i 0 (readEntry s'.mem t i)
  frame : ∀ x, s'.mem x = s.mem x ∨ ∃ t, IsFrame t ∧ InFrame t x ∧
    ((∃ path, HasTable live s.toMachine a path t) ∨
      ¬ Held s.ptAlloc t ∧ Held s'.ptAlloc t)

theorem Extends.refl (inv : TreesInv live s) : Extends live a user s s where
  inv := inv
  rest := rfl
  heldMono := id
  positions := id
  words _ _ := Or.inl rfl
  fresh := Or.inl
  frame _ := Or.inl rfl

theorem Extends.asSlots (ext : Extends live a user s s') : s'.asSlots = s.asSlots := by
  rw [ext.rest]

/-- The tables of the other spaces are left alone. -/
theorem Extends.keeps (ext : Extends live a user s s') :
    Keeps (fun b => live b ∧ b ≠ a) s.toMachine s'.toMachine where
  roots _ := by rw [ext.asSlots]
  words table i := by
    rcases ext.words (HasTable.mono And.left table) i with same | ⟨same, -⟩
    · exact same
    · exact absurd same table.live.2

theorem Extends.trans (one : Extends live a user s s₁) (two : Extends live a user s₁ s₂) :
    Extends live a user s s₂ where
  inv := two.inv
  rest := by
    rw [two.rest, one.rest]
  heldMono := two.heldMono ∘ one.heldMono
  positions := two.positions ∘ one.positions
  words table i := by
    rcases one.words table i with same | ⟨rfl, created⟩
    · rw [← same]
      exact two.words (one.positions table) i
    · rcases two.words (one.positions table) i with same | ⟨-, -, absent, -⟩
      · exact Or.inr ⟨rfl, same ▸ created⟩
      · -- an entry is created once: the first one is present already
        obtain ⟨-, -, g, entry⟩ := created
        rw [entry, present_tableEntry] at absent
        cases absent
  fresh table := by
    rcases two.fresh table with old | ⟨rfl, deep, free, zero⟩
    · rcases one.fresh old with older | ⟨rfl, deep, free, zero⟩
      · exact Or.inl older
      · refine Or.inr ⟨rfl, deep, free, fun i => ?_⟩
        rcases two.words old i with same | ⟨-, admitted, -, entry⟩
        · rw [same]
          exact zero i
        · exact Or.inr ⟨admitted, present_zero, entry⟩
    · exact Or.inr ⟨rfl, deep, fun held => free (one.heldMono held), zero⟩
  frame x := by
    rcases two.frame x with same | ⟨t, isFrame, inside, ⟨path, table⟩ | ⟨free, held⟩⟩
    · rcases one.frame x with older | ⟨t, isFrame, inside, table | ⟨free, held⟩⟩
      · exact Or.inl (same.trans older)
      · exact Or.inr ⟨t, isFrame, inside, Or.inl table⟩
      · exact Or.inr ⟨t, isFrame, inside, Or.inr ⟨free, two.heldMono held⟩⟩
    · rcases one.fresh table with old | ⟨-, -, free, -⟩
      · exact Or.inr ⟨t, isFrame, inside, Or.inl ⟨path, old⟩⟩
      · exact Or.inr ⟨t, isFrame, inside,
          Or.inr ⟨free, two.heldMono (one.inv.held table)⟩⟩
    · exact Or.inr ⟨t, isFrame, inside,
        Or.inr ⟨fun early => free (one.heldMono early), held⟩⟩

/-- The reads of a memory in which a new table was linked, in terms of the
memory before the allocation. -/
theorem readEntry_linkTable {m m' : Mem} {parent f q : PhysAddr} {i j : Fin entryCount}
    (outside : ∀ x, ¬ InFrame f x → m' x = m x) (parentFrame : IsFrame parent)
    (newFrame : IsFrame f) (frame : IsFrame q) :
    readEntry (linkTable m' parent i f user) q j =
      if q = parent ∧ j = i then tableEntry f user
      else if q = f then 0
      else readEntry m q j := by
  rw [linkTable]
  by_cases slot : q = parent ∧ j = i
  · obtain ⟨rfl, rfl⟩ := slot
    rw [readEntry_writeEntry_self, if_pos ⟨rfl, rfl⟩]
  · rw [readEntry_writeEntry_ne parentFrame frame (by tauto), if_neg slot]
    by_cases new : q = f
    · rw [new, readEntry_zeroFrame_self, if_pos rfl]
    · rw [readEntry_zeroFrame_ne newFrame frame new, if_neg new]
      exact outside _ fun inside =>
        new ((inFrame_entryAddr_iff frame newFrame j).mp inside).symm

/-- A table just linked is empty. -/
theorem readEntry_linkTable_new {m m' : Mem} {parent f : PhysAddr} {i : Fin entryCount}
    (outside : ∀ x, ¬ InFrame f x → m' x = m x) (parentFrame : IsFrame parent)
    (newFrame : IsFrame f) (apart : f ≠ parent) (j : Fin entryCount) :
    readEntry (linkTable m' parent i f user) f j = 0 := by
  rw [readEntry_linkTable outside parentFrame newFrame newFrame,
    if_neg (fun same => apart same.1), if_pos rfl]

/-- A present entry is the new link, or it was there before. -/
theorem present_linkTable {m m' : Mem} {parent f q : PhysAddr} {i j : Fin entryCount}
    (outside : ∀ x, ¬ InFrame f x → m' x = m x) (parentFrame : IsFrame parent)
    (newFrame : IsFrame f) (frame : IsFrame q)
    (isPresent : present (readEntry (linkTable m' parent i f user) q j) = true) :
    (q = parent ∧ j = i ∧
        readEntry (linkTable m' parent i f user) q j = tableEntry f user) ∨
      (q ≠ f ∧ readEntry (linkTable m' parent i f user) q j = readEntry m q j) := by
  rw [readEntry_linkTable outside parentFrame newFrame frame] at isPresent ⊢
  by_cases slot : q = parent ∧ j = i
  · exact Or.inl ⟨slot.1, slot.2, if_pos slot⟩
  · rw [if_neg slot] at isPresent ⊢
    by_cases new : q = f
    · rw [if_pos new, present_zero] at isPresent
      cases isPresent
    · exact Or.inr ⟨new, if_neg new⟩

/-- Linking writes the new table and the slot that points to it. -/
theorem linkTable_outside {m m' : Mem} {parent f : PhysAddr} {i : Fin entryCount} {x : Word}
    (outside : ∀ x, ¬ InFrame f x → m' x = m x) (notNew : ¬ InFrame f x)
    (notSlot : x ≠ entryAddr parent i) : linkTable m' parent i f user x = m x := by
  rw [linkTable, writeEntry_apply, if_neg notSlot, zeroFrame, if_neg notNew,
    outside x notNew]

/-- Linking a frame just allocated is a graft of the forest. -/
theorem link_graft (user : Bool) {path : List (Fin entryCount)} {parent f : PhysAddr}
    {i : Fin entryCount} {m : Mem} (inv : TreesInv live s)
    (table : HasTable live s.toMachine a path parent) (admitted : LowerPath 3 (path ++ [i]))
    (absent : present (readEntry s.mem parent i) = false)
    (newFrame : IsFrame f) (free : ¬ Held s.ptAlloc f)
    (outside : ∀ x, ¬ InFrame f x → m x = s.mem x) :
    (lowerLayout live s.asSlots).Graft (nextTable s.mem)
      (nextTable (linkTable m parent i f user)) a path parent i f := by
  have parentFrame := inv.isFrame table
  have apart : f ≠ parent := fun same => free (same ▸ inv.held table)
  refine ⟨table, admitted, nextTable_eq_none.mpr absent, ?_, fun j _ => ?_, ?_⟩
  · rw [nextTable_eq_some,
      readEntry_linkTable outside parentFrame newFrame parentFrame, if_pos ⟨rfl, rfl⟩]
    exact ⟨present_tableEntry f user, (tableEntry_and_addrMask f user).trans newFrame⟩
  · rw [nextTable_eq_none, readEntry_linkTable_new outside parentFrame newFrame apart]
    exact present_zero
  · intro b rest node j other _ elsewhere
    apply nextTable_congr
    rw [readEntry_linkTable outside parentFrame newFrame (inv.isFrame other),
      if_neg (by tauto), if_neg]
    rintro rfl
    exact free (inv.held other)

/-- `ensure_table` on an absent entry, when the allocator has a frame. -/
theorem link_extends {path : List (Fin entryCount)} {parent f : PhysAddr}
    {i : Fin entryCount} {al : A} {m : Mem} (inv : TreesInv live s)
    (table : HasTable live s.toMachine a path parent) (admitted : LowerPath 3 (path ++ [i]))
    (absent : present (readEntry s.mem parent i) = false)
    (alloc : allocFrame4k s.ptAlloc s.mem = (some f, al, m)) :
    Extends live a user s { s with ptAlloc := al, mem := linkTable m parent i f user } ∧
      HasTable live { s with mem := linkTable m parent i f user } a (path ++ [i]) f := by
  obtain ⟨valid, newFrame, free, held, outside⟩ := alloc_some inv.valid alloc
  have parentFrame := inv.isFrame table
  have apart : f ≠ parent := fun same => free (same ▸ inv.held table)
  have graft := link_graft user inv table admitted absent newFrame free outside
  have oldRead : ∀ {b rest t} j, HasTable live s.toMachine b rest t →
      readEntry (linkTable m parent i f user) t j =
        if t = parent ∧ j = i then tableEntry f user else readEntry s.mem t j := by
    intro b rest t j other
    rw [readEntry_linkTable outside parentFrame newFrame (inv.isFrame other)]
    have old : t ≠ f := fun same => free (same ▸ inv.held other)
    rw [if_neg old]
  have newRead : ∀ j, readEntry (linkTable m parent i f user) f j = 0 :=
    readEntry_linkTable_new outside parentFrame newFrame apart
  refine ⟨⟨⟨⟨inv.roots, ?forest, ?entries⟩, valid, ?held⟩, rfl, ?mono, ?positions,
    ?words, ?fresh, ?frame⟩, graft.fresh_at inv.forest⟩
  case forest => exact graft.forest inv.forest fun other => free (inv.held other)
  case entries =>
    intro b rest t j after inside isPresent
    rcases (graft.at_iff inv.forest).mp after with before | ⟨-, -, rfl⟩
    · rcases present_linkTable outside parentFrame newFrame (inv.isFrame before) isPresent
        with ⟨-, -, linked⟩ | ⟨-, same⟩
      · exact linked ▸ isTableEntry_tableEntry f user
      · dsimp only at isPresent ⊢
        rw [same] at isPresent ⊢
        exact inv.entries before inside isPresent
    · rw [newRead, present_zero] at isPresent
      cases isPresent
  case held =>
    intro b rest t after
    rcases (graft.at_iff inv.forest).mp after with before | ⟨-, -, rfl⟩
    · exact (held t).mpr (Or.inl (inv.held before))
    · exact (held t).mpr (Or.inr rfl)
  case mono => exact fun {g} early => (held g).mpr (Or.inl early)
  case positions => exact fun before => (graft.at_iff inv.forest).mpr (Or.inl before)
  case words =>
    intro b rest t before j
    rw [oldRead j before]
    split
    · rename_i slot
      obtain ⟨rfl, rfl⟩ := slot
      obtain ⟨rfl, rfl⟩ := inv.forest before table
      exact Or.inr ⟨rfl, admitted, absent, f, rfl⟩
    · exact Or.inl rfl
  case fresh =>
    intro b rest t after
    rcases (graft.at_iff inv.forest).mp after with before | ⟨rfl, rfl, rfl⟩
    · exact Or.inl before
    · exact Or.inr ⟨rfl, by simp, free, fun j => Or.inl (newRead j)⟩
  case frame =>
    intro x
    by_cases inNew : InFrame f x
    · exact Or.inr ⟨f, newFrame, inNew, Or.inr ⟨free, (held f).mpr (Or.inr rfl)⟩⟩
    · by_cases slot : x = entryAddr parent i
      · exact Or.inr ⟨parent, parentFrame, slot ▸ inFrame_entryAddr parent i,
          Or.inl ⟨path, table⟩⟩
      · exact Or.inl (linkTable_outside outside inNew slot)

/-- A request the allocator refuses leaves memory and the held frames alone. -/
theorem refused_extends {al : A} {m : Mem} (inv : TreesInv live s)
    (alloc : allocFrame4k s.ptAlloc s.mem = (none, al, m)) :
    Extends live a user s { s with ptAlloc := al, mem := m } := by
  obtain ⟨valid, rfl, held⟩ := alloc_none inv.valid alloc
  exact
    { inv :=
        { roots := inv.roots, forest := inv.forest, entries := inv.entries
          valid := valid, held := fun table => (held _).mpr (inv.held table) }
      rest := rfl
      heldMono := fun {g} early => (held g).mpr early
      positions := id
      words := fun _ _ => Or.inl rfl
      fresh := Or.inl
      frame := fun _ => Or.inl rfl }

/-- How a descent that creates missing tables ends: at the table of its path,
or with `OutOfMemory`, and then the table was not there before.  In both cases the
tables made on the way stay. -/
def Descends (live : Fin maxAddressSpaces → Prop) (a : Fin maxAddressSpaces)
    (user : Bool) (s : Sys A) (path : List (Fin entryCount)) :
    Except MapError PhysAddr × Sys A → Prop
  | (.ok t, s') => Extends live a user s s' ∧ HasTable live s'.toMachine a path t
  | (.error e, s') => Extends live a user s s' ∧ e = .outOfMemory ∧
      ∀ t, ¬ HasTable live s.toMachine a path t

theorem ensureTable_spec {path : List (Fin entryCount)} {parent : PhysAddr}
    {i : Fin entryCount} (inv : TreesInv live s)
    (table : HasTable live s.toMachine a path parent)
    (admitted : LowerPath 3 (path ++ [i])) :
    Descends live a user s (path ++ [i]) ((ensureTable parent i user).exec s) := by
  rw [ensureTable_exec]
  by_cases isPresent : present (readEntry s.mem parent i) = true
  · rw [if_pos isPresent]
    exact ⟨Extends.refl inv,
      table.child admitted (nextTable_eq_some.mpr ⟨isPresent, rfl⟩)⟩
  · rw [if_neg isPresent]
    rcases alloc : allocFrame4k s.ptAlloc s.mem with ⟨_ | f, al, m⟩
    · refine ⟨refused_extends inv alloc, rfl, fun t there => ?_⟩
      obtain ⟨above, aboveTable, slot⟩ := there.parent
      rw [aboveTable.unique table] at slot
      exact isPresent (nextTable_eq_some.mp slot).1
    · exact link_extends inv table admitted (by simpa using isPresent) alloc

theorem ensurePath_spec {path rest : List (Fin entryCount)} {t : PhysAddr}
    (inv : TreesInv live s) (table : HasTable live s.toMachine a path t)
    (admitted : LowerPath 3 (path ++ rest)) :
    Descends live a user s (path ++ rest) ((ensurePath user t rest).exec s) := by
  induction rest generalizing s path t with
  | nil => exact ⟨Extends.refl inv, by simpa using table⟩
  | cons i rest inductionHypothesis =>
      have step : LowerPath 3 (path ++ [i]) :=
        (lowerLayout live s.asSlots).admits_initial ⟨rest, by simp⟩ admitted
      have first : Descends live a user s _ _ := ensureTable_spec inv table step
      rw [ensurePath, MmuM.exec_bind]
      generalize (ensureTable t i user).exec s = outcome at first ⊢
      obtain ⟨e | child, s₁⟩ := outcome
      · obtain ⟨ext, memory, missing⟩ := first
        refine ⟨ext, memory, fun t there => ?_⟩
        rw [← List.singleton_append, ← List.append_assoc] at there
        obtain ⟨above, position⟩ := there.initial
        exact missing above position
      · obtain ⟨ext, childTable⟩ := first
        have onward := inductionHypothesis ext.inv childTable (by simpa using admitted)
        dsimp only
        rw [List.append_assoc] at onward
        generalize (ensurePath user child rest).exec s₁ = outcome at onward ⊢
        obtain ⟨e | pt, s₂⟩ := outcome
        · obtain ⟨further, memory, missing⟩ := onward
          exact ⟨ext.trans further, memory, fun t there => missing t (ext.positions there)⟩
        · exact ⟨ext.trans onward.1, onward.2⟩

end

end RincOs
