/-
Module: RincOs.Proofs.TableLevels
Purpose: Levels of page-table frames over runs that use the kernel address space
  and created ones at any address.  A frame keeps the level it has, so the leaf
  writes never hit an upper table, and an entry of an upper table that is present
  stays as it is.
Trusted boundary: none
Main exports:
  NeverGiven, Leveled, Stays, SmallPath, ensurePath_leveled, AnyCall,
  anyCall_leveled
-/
import RincOs.Proofs.Runs
import RincOs.Arch.HardwareWalk

namespace RincOs

open RadixForest LawfulFrameAlloc

variable {A : Type}

/-! ### Frames an allocator does not hand out -/

section

variable [PageTableFrameAlloc A]

/-- `Allocs a a'`: some calls of `alloc_frame_4k` lead from `a` to `a'`. -/
inductive Allocs (a : A) : A → Prop where
  | refl : Allocs a a
  | step {a₁ a₂ : A} {m m' : Mem} {answer : Option PhysAddr} (before : Allocs a a₁)
      (alloc : allocFrame4k a₁ m = (answer, a₂, m')) : Allocs a a₂

/-- No later call of `alloc_frame_4k` returns `f`. -/
def NeverGiven (a : A) (f : PhysAddr) : Prop :=
  ∀ (a₁ a₂ : A) (m m' : Mem), Allocs a a₁ → allocFrame4k a₁ m ≠ (some f, a₂, m')

theorem Allocs.head {a a₁ a₂ : A} {m m' : Mem} {answer : Option PhysAddr}
    (alloc : allocFrame4k a m = (answer, a₁, m')) (rest : Allocs a₁ a₂) : Allocs a a₂ := by
  induction rest with
  | refl => exact .step .refl alloc
  | step _ later inductionHypothesis => exact .step inductionHypothesis later

theorem NeverGiven.alloc {a a' : A} {m m' : Mem} {answer : Option PhysAddr} {f : PhysAddr}
    (reserved : NeverGiven a f) (alloc : allocFrame4k a m = (answer, a', m')) :
    NeverGiven a' f :=
  fun _ _ _ _ rest => reserved _ _ _ _ (rest.head alloc)

/-- One call of a valid allocator keeps it valid and keeps what is held. -/
theorem alloc_held [LawfulFrameAlloc A] {a a' : A} {m m' : Mem} {answer : Option PhysAddr}
    (valid : Valid a) (alloc : allocFrame4k a m = (answer, a', m')) :
    Valid a' ∧ ∀ {f}, Held a f → Held a' f := by
  cases answer with
  | none =>
      obtain ⟨valid', -, same⟩ := alloc_none valid alloc
      exact ⟨valid', fun {f} held => (same f).mpr held⟩
  | some g =>
      obtain ⟨valid', -, -, grown, -⟩ := alloc_some valid alloc
      exact ⟨valid', fun {f} held => (grown f).mpr (Or.inl held)⟩

theorem Allocs.held [LawfulFrameAlloc A] {a a' : A} {f : PhysAddr} (reached : Allocs a a')
    (valid : Valid a) (held : Held a f) : Valid a' ∧ Held a' f := by
  induction reached with
  | refl => exact ⟨valid, held⟩
  | step _ later inductionHypothesis =>
      obtain ⟨valid₁, held₁⟩ := inductionHypothesis
      obtain ⟨valid₂, keeps⟩ := alloc_held valid₁ later
      exact ⟨valid₂, keeps held₁⟩

theorem neverGiven_of_held [LawfulFrameAlloc A] {a : A} {f : PhysAddr} (valid : Valid a)
    (held : Held a f) : NeverGiven a f := by
  intro a₁ a₂ m m' reached alloc
  obtain ⟨valid₁, held₁⟩ := reached.held valid held
  exact (alloc_some valid₁ alloc).2.2.1 held₁

/-! ### Levels -/

/-- The handle is the kernel's or that of a slot in use. -/
def LiveSpace (k : Machine) : AddressSpace → Prop
  | .kas => True
  | .slot a => Used k a

/-- An entry of a level `l + 1` table that points to a table: PS means nothing in
a PML4. -/
def LinksAt (l : Nat) (e : Word) : Prop := present e = true ∧ (l = 3 ∨ isLarge e = false)

variable [LawfulFrameAlloc A]

/-- Each frame has at most one level, the roots of live spaces have level 4, and
entries point one level down.  The allocator keeps off these frames. -/
structure Leveled (level : Nat → PhysAddr → Prop) (s : Sys A) : Prop where
  valid : Valid s.ptAlloc
  kernel : s.kasHandle ≠ none
  roots : ∀ aspace, LiveSpace s.toMachine aspace →
    level 4 (s.asX86 aspace).pml4Phys
  isFrame : ∀ {l t}, level l t → IsFrame t
  unique : ∀ {l l' t}, level l t → level l' t → l = l'
  reserved : ∀ {l t}, level l t → NeverGiven s.ptAlloc t
  below : ∀ {l t i}, 0 < l → level (l + 1) t → LinksAt l (readEntry s.mem t i) →
    level l (readEntry s.mem t i &&& addrMask)

/-- The present entries of tables above the last level are left as they are. -/
def Stays (level : Nat → PhysAddr → Prop) (m m' : Mem) : Prop :=
  ∀ {l t i}, 0 < l → level (l + 1) t → present (readEntry m t i) = true →
    readEntry m' t i = readEntry m t i

/-- `level` with a new frame. -/
def addLevel (level : Nat → PhysAddr → Prop) (l : Nat) (f : PhysAddr) :
    Nat → PhysAddr → Prop :=
  fun l' t => level l' t ∨ (l' = l ∧ t = f)

variable {level : Nat → PhysAddr → Prop} {s : Sys A}

theorem Leveled.not_given (leveled : Leveled level s) {f : PhysAddr} {al : A} {m : Mem}
    (alloc : allocFrame4k s.ptAlloc s.mem = (some f, al, m)) {l : Nat} : ¬ level l f :=
  fun known => leveled.reserved known _ _ _ _ .refl alloc

/-- The levels after an operation: none lost, the entries above the last level
kept, and the roots of live spaces where they were. -/
structure KeepsLevels (level level' : Nat → PhysAddr → Prop) (s s' : Sys A) : Prop where
  leveled : Leveled level' s'
  mono : ∀ {l t}, level l t → level' l t
  stays : Stays level s.mem s'.mem
  live : ∀ aspace, LiveSpace s.toMachine aspace → LiveSpace s'.toMachine aspace
  roots : ∀ aspace, LiveSpace s.toMachine aspace → s'.asX86 aspace = s.asX86 aspace

theorem KeepsLevels.refl (leveled : Leveled level s) : KeepsLevels level level s s :=
  ⟨leveled, id, fun _ _ _ => rfl, fun _ => id, fun _ _ => rfl⟩

theorem KeepsLevels.trans {level' level'' : Nat → PhysAddr → Prop} {s' s'' : Sys A}
    (one : KeepsLevels level level' s s') (two : KeepsLevels level' level'' s' s'') :
    KeepsLevels level level'' s s'' where
  leveled := two.leveled
  mono known := two.mono (one.mono known)
  stays above known isPresent := by
    have first := one.stays above known isPresent
    rw [← first] at isPresent
    exact (two.stays above (one.mono known) isPresent).trans first
  live aspace known := two.live aspace (one.live aspace known)
  roots aspace known := (two.roots aspace (one.live aspace known)).trans (one.roots aspace known)

/-- A present entry of the PML4 of a live space stays as it is. -/
theorem KeepsLevels.rootEntry {level' : Nat → PhysAddr → Prop} {s' : Sys A}
    (keeps : KeepsLevels level level' s s') (leveled : Leveled level s)
    {aspace : AddressSpace} (live : LiveSpace s.toMachine aspace) {i : Fin entryCount}
    (isPresent : present (readEntry s.mem (s.asX86 aspace).pml4Phys i) = true) :
    readEntry s'.mem (s'.asX86 aspace).pml4Phys i =
      readEntry s.mem (s.asX86 aspace).pml4Phys i := by
  rw [keeps.roots aspace live]
  exact keeps.stays (by decide) (leveled.roots aspace live) isPresent

/-- A refused allocation changes nothing the levels depend on. -/
theorem Leveled.refused (leveled : Leveled level s) {al : A} {m : Mem}
    (alloc : allocFrame4k s.ptAlloc s.mem = (none, al, m)) :
    KeepsLevels level level s { s with ptAlloc := al, mem := m } := by
  obtain ⟨valid, rfl, -⟩ := alloc_none leveled.valid alloc
  refine ⟨?_, id, fun _ _ _ => rfl, fun _ => id, fun _ _ => rfl⟩
  exact ⟨valid, leveled.kernel, leveled.roots, leveled.isFrame, leveled.unique,
    fun known => (leveled.reserved known).alloc alloc, leveled.below⟩

/-- A new frame gets a level of its own. -/
theorem Leveled.unique_addLevel (leveled : Leveled level s) {f : PhysAddr} {al : A} {m : Mem}
    (alloc : allocFrame4k s.ptAlloc s.mem = (some f, al, m)) {l l₁ l₂ : Nat} {t : PhysAddr}
    (one : addLevel level l f l₁ t) (two : addLevel level l f l₂ t) : l₁ = l₂ := by
  rcases one with old₁ | ⟨rfl, rfl⟩ <;> rcases two with old₂ | ⟨rfl, new⟩
  · exact leveled.unique old₁ old₂
  · exact absurd (new ▸ old₁) (leveled.not_given alloc)
  · exact absurd old₂ (leveled.not_given alloc)
  · rfl

theorem Leveled.reserved_addLevel (leveled : Leveled level s) {f : PhysAddr} {al : A} {m : Mem}
    (alloc : allocFrame4k s.ptAlloc s.mem = (some f, al, m)) {l l₁ : Nat} {t : PhysAddr}
    (known : addLevel level l f l₁ t) : NeverGiven al t := by
  obtain ⟨valid, -, -, held, -⟩ := alloc_some leveled.valid alloc
  rcases known with old | ⟨-, rfl⟩
  · exact (leveled.reserved old).alloc alloc
  · exact neverGiven_of_held valid ((held t).mpr (Or.inr rfl))

theorem Leveled.isFrame_addLevel (leveled : Leveled level s) {f : PhysAddr} {al : A} {m : Mem}
    (alloc : allocFrame4k s.ptAlloc s.mem = (some f, al, m)) {l l₁ : Nat} {t : PhysAddr}
    (known : addLevel level l f l₁ t) : IsFrame t := by
  obtain ⟨-, newFrame, -⟩ := alloc_some leveled.valid alloc
  rcases known with old | ⟨-, rfl⟩
  · exact leveled.isFrame old
  · exact newFrame

/-- A new frame linked into a table one level up. -/
theorem Leveled.link (leveled : Leveled level s) {f parent : PhysAddr} {al : A} {m : Mem}
    {l : Nat} {i : Fin entryCount} (user : Bool)
    (table : level (l + 1) parent) (absent : present (readEntry s.mem parent i) = false)
    (alloc : allocFrame4k s.ptAlloc s.mem = (some f, al, m)) :
    KeepsLevels level (addLevel level l f) s
      { s with ptAlloc := al, mem := linkTable m parent i f user } := by
  obtain ⟨valid, newFrame, -, -, outside⟩ := alloc_some leveled.valid alloc
  refine ⟨?leveled, Or.inl, ?stays, fun _ => id, fun _ _ => rfl⟩
  case leveled =>
    refine ⟨valid, leveled.kernel, fun _ live => Or.inl (leveled.roots _ live),
      leveled.isFrame_addLevel alloc, leveled.unique_addLevel alloc,
      leveled.reserved_addLevel alloc, ?below⟩
    case below =>
      intro l' t j above known links
      dsimp only at links ⊢
      rcases present_linkTable outside (leveled.isFrame table) newFrame
        (leveled.isFrame_addLevel alloc known) links.1 with ⟨rfl, -, linked⟩ | ⟨new, same⟩
      · rw [linked, tableEntry_and_addrMask, newFrame]
        have same : l' + 1 = l + 1 := leveled.unique_addLevel alloc known (Or.inl table)
        exact Or.inr ⟨Nat.succ.inj same, rfl⟩
      · rw [same] at links ⊢
        have old : level (l' + 1) t := known.resolve_right fun both => new both.2
        exact Or.inl (leveled.below above old links)
  case stays =>
    intro l' t j above known isPresent
    dsimp only
    rw [readEntry_linkTable outside (leveled.isFrame table) newFrame
      (leveled.isFrame known), if_neg, if_neg]
    · rintro rfl
      exact leveled.not_given alloc known
    · rintro ⟨rfl, rfl⟩
      rw [absent] at isPresent
      cases isPresent

/-! ### Descending -/

/-- No entry met on the path from `t` is a large page; the path leads to a PT. -/
def SmallPath (m : Mem) : PhysAddr → List (Fin entryCount) → Prop
  | _, [] => True
  | t, i :: path =>
      present (readEntry m t i) = true →
        LinksAt (path.length + 1) (readEntry m t i) ∧
          SmallPath m (readEntry m t i &&& addrMask) path

omit [PageTableFrameAlloc A] [LawfulFrameAlloc A] in
theorem smallPath_of_zero {m : Mem} {t : PhysAddr} (zero : ∀ i, readEntry m t i = 0)
    (path : List (Fin entryCount)) : SmallPath m t path := by
  cases path with
  | nil => trivial
  | cons i path =>
      intro isPresent
      rw [zero, present_zero] at isPresent
      cases isPresent

omit [PageTableFrameAlloc A] [LawfulFrameAlloc A] in
theorem smallPath_of_small {m : Mem} {root : PhysAddr} {v : VirtAddr}
    (small : largePage m root v = false) : SmallPath m root (tablePath v) := by
  intro present1
  refine ⟨⟨present1, Or.inl rfl⟩, fun present2 => ?_⟩
  simp only [largePage, present1, present2, Bool.true_and, Bool.or_eq_false_iff,
    Bool.and_eq_false_iff] at small
  refine ⟨⟨present2, Or.inr small.1⟩, fun present3 => ⟨⟨present3, Or.inr ?_⟩, trivial⟩⟩
  simpa [present3] using small.2

theorem ensurePath_leveled (user : Bool) {t : PhysAddr} (path : List (Fin entryCount))
    (leveled : Leveled level s) (table : level (path.length + 1) t)
    (small : SmallPath s.mem t path) :
    ∃ level', KeepsLevels level level' s ((ensurePath user t path).exec s).2 ∧
      ∀ pt, ((ensurePath user t path).exec s).1 = .ok pt → level' 1 pt := by
  induction path generalizing s t level with
  | nil => exact ⟨level, .refl leveled, fun pt done => Except.ok.inj done ▸ table⟩
  | cons i path inductionHypothesis =>
      rw [ensurePath, MmuM.exec_bind, ensureTable_exec]
      by_cases isPresent : present (readEntry s.mem t i) = true
      · obtain ⟨links, rest⟩ := small isPresent
        rw [if_pos isPresent]
        exact inductionHypothesis leveled (leveled.below (Nat.succ_pos _) table links) rest
      · rw [if_neg isPresent]
        rcases alloc : allocFrame4k s.ptAlloc s.mem with ⟨_ | f, al, m⟩
        · exact ⟨level, leveled.refused alloc, by rintro pt ⟨⟩⟩
        · have linked := leveled.link user table (Bool.eq_false_iff.mpr isPresent) alloc
          obtain ⟨-, newFrame, -, -, outside⟩ := alloc_some leveled.valid alloc
          have apart : f ≠ t := by
            rintro rfl
            exact leveled.not_given alloc table
          have zero : ∀ j, readEntry (linkTable m t i f user) f j = 0 :=
            readEntry_linkTable_new outside (leveled.isFrame table) newFrame apart
          obtain ⟨level', keeps, last⟩ := inductionHypothesis linked.leveled
            (Or.inr ⟨rfl, rfl⟩) (smallPath_of_zero zero path)
          exact ⟨level', linked.trans keeps, last⟩

omit [PageTableFrameAlloc A] [LawfulFrameAlloc A] in
/-- Where entries point one level down and the walk meets no large page, it ends at a table
of the last level. -/
theorem walk_level {m : Mem} {t pt : PhysAddr} {path : List (Fin entryCount)}
    (below : ∀ {l t i}, 0 < l → level (l + 1) t → LinksAt l (readEntry m t i) →
      level l (readEntry m t i &&& addrMask))
    (walked : walk (nextTable m) t path = some pt) (small : SmallPath m t path)
    (table : level (path.length + 1) t) : level 1 pt := by
  induction path generalizing t with
  | nil => exact Option.some.inj walked ▸ table
  | cons i path inductionHypothesis =>
      rw [walk_cons, Option.bind_eq_some_iff] at walked
      obtain ⟨child, slot, walked⟩ := walked
      obtain ⟨isPresent, rfl⟩ := nextTable_eq_some.mp slot
      obtain ⟨links, rest⟩ := small isPresent
      exact inductionHypothesis walked rest (below (Nat.succ_pos _) table links)

/-- A write into a table of the last level. -/
theorem Leveled.writeLeaf {pt : PhysAddr} (leveled : Leveled level s) (table : level 1 pt)
    (i : Fin entryCount) (w : Word) (ops : List TlbOp) :
    KeepsLevels level level s
      { s with mem := writeEntry s.mem pt i w, tlbOps := ops } := by
  have read : ∀ {l t j}, 0 < l → level (l + 1) t →
      readEntry (writeEntry s.mem pt i w) t j = readEntry s.mem t j := by
    intro l t j above known
    refine readEntry_writeEntry_ne (leveled.isFrame table) (leveled.isFrame known) (Or.inl ?_)
    rintro rfl
    have same := leveled.unique known table
    omega
  refine ⟨⟨leveled.valid, leveled.kernel, leveled.roots, leveled.isFrame, leveled.unique,
    leveled.reserved, ?_⟩, id, fun above known _ => read above known, fun _ => id, fun _ _ => rfl⟩
  intro l t j above known links
  dsimp only at links ⊢
  rw [read above known] at links ⊢
  exact leveled.below above known links

/-! ### The calls -/

theorem map4k_leveled {aspace : AddressSpace} {v : VirtAddr} (p : PhysAddr) (flags : MapFlags)
    (leveled : Leveled level s) (live : LiveSpace s.toMachine aspace)
    (small : largePage s.mem (s.asX86 aspace).pml4Phys v = false) :
    ∃ level', KeepsLevels level level' s ((map4k aspace v p flags).exec s).2 := by
  rw [map4k_exec]
  split
  · exact ⟨level, .refl leveled⟩
  split
  · exact ⟨level, .refl leveled⟩
  obtain ⟨level', keeps, last⟩ := ensurePath_leveled (flags.contains .user)
    (tablePath v) leveled (leveled.roots _ live) (smallPath_of_small small)
  generalize (ensurePath _ _ (tablePath v)).exec s = outcome at keeps last
  obtain ⟨e | pt, s₁⟩ := outcome
  · exact ⟨level', keeps⟩
  · dsimp only
    rw [mapLeaf]
    split
    · exact ⟨level', keeps⟩
    · exact ⟨level', keeps.trans (keeps.leveled.writeLeaf (last pt rfl) _ _ _)⟩

theorem replaceLeaf_leveled {aspace : AddressSpace} {v : VirtAddr}
    (update : Bool → Word → Word) (leveled : Leveled level s)
    (live : LiveSpace s.toMachine aspace)
    (small : largePage s.mem (s.asX86 aspace).pml4Phys v = false) :
    KeepsLevels level level s ((replaceLeaf aspace v update).exec s).2 := by
  rcases replaceLeaf_cases aspace v update s with same | ⟨pt, w, found, written⟩
  · rw [same]
    exact .refl leveled
  · rw [walkToPt_eq_walk] at found
    have table := walk_level leveled.below found (smallPath_of_small small)
      (leveled.roots _ live)
    rw [written]
    exact leveled.writeLeaf table _ _ _

/-- Filling a new PML4 leaves all tables alone. -/
theorem Leveled.read_newRoot (leveled : Leveled level s) {kernelRoot f q : PhysAddr} {al : A}
    {m : Mem} (alloc : allocFrame4k s.ptAlloc s.mem = (some f, al, m)) {l : Nat}
    (known : level l q) (i : Fin entryCount) :
    readEntry (newRootMem m kernelRoot f) q i = readEntry s.mem q i := by
  obtain ⟨-, newFrame, -, -, outside⟩ := alloc_some leveled.valid alloc
  have apart : ¬ InFrame f (entryAddr q i) := by
    rw [inFrame_entryAddr_iff (leveled.isFrame known) newFrame]
    rintro rfl
    exact leveled.not_given alloc known
  rw [readEntry, newRootMem_outside apart, outside _ apart, readEntry]

/-- The new PML4 has the kernel's entries in its upper half. -/
theorem Leveled.read_upper (leveled : Leveled level s) {kernelRoot f : PhysAddr} {al : A}
    {m : Mem} (alloc : allocFrame4k s.ptAlloc s.mem = (some f, al, m)) {l : Nat}
    (kernel : level l kernelRoot) {i : Fin entryCount} (upper : kernelPml4Start ≤ i) :
    readEntry (newRootMem m kernelRoot f) f i = readEntry s.mem kernelRoot i := by
  obtain ⟨-, newFrame, -, -, outside⟩ := alloc_some leveled.valid alloc
  have apart : kernelRoot ≠ f := by
    rintro rfl
    exact leveled.not_given alloc kernel
  have frame := leveled.isFrame kernel
  rw [readEntry_newRootMem_upper m kernelRoot f upper,
    readEntry_zeroFrame_ne newFrame frame apart, readEntry, outside, readEntry]
  rw [inFrame_entryAddr_iff frame newFrame]
  exact fun same => apart same.symm

/-- A filled PML4 that no slot was left for. -/
theorem Leveled.leaked (leveled : Leveled level s) {f : PhysAddr} {al : A} {m : Mem}
    (kernelRoot : PhysAddr) (alloc : allocFrame4k s.ptAlloc s.mem = (some f, al, m)) :
    KeepsLevels level level s { s with ptAlloc := al, mem := newRootMem m kernelRoot f } := by
  refine ⟨⟨(alloc_some leveled.valid alloc).1, leveled.kernel, leveled.roots, leveled.isFrame,
    leveled.unique, fun known => (leveled.reserved known).alloc alloc, ?_⟩, id,
    fun _ known _ => leveled.read_newRoot alloc known _, fun _ => id, fun _ _ => rfl⟩
  intro l t i above known links
  dsimp only at links ⊢
  rw [leveled.read_newRoot alloc known] at links ⊢
  exact leveled.below above known links

/-- A filled PML4 in a slot that was free. -/
theorem Leveled.newSpace (leveled : Leveled level s) {f kernelRoot : PhysAddr} {al : A}
    {m : Mem} {a : Fin maxAddressSpaces} (kernel : level 4 kernelRoot)
    (free : (s.asSlots a).used = false)
    (alloc : allocFrame4k s.ptAlloc s.mem = (some f, al, m)) :
    KeepsLevels level (addLevel level 4 f) s
      { s with
        ptAlloc := al
        mem := newRootMem m kernelRoot f
        asSlots := Function.update s.asSlots a (newSlot a f) } := by
  obtain ⟨valid, -⟩ := alloc_some leveled.valid alloc
  have other : ∀ {b}, Used s.toMachine b → b ≠ a := by
    rintro b used rfl
    rw [Used, free] at used
    cases used
  refine ⟨⟨valid, leveled.kernel, ?roots, leveled.isFrame_addLevel alloc,
    leveled.unique_addLevel alloc, leveled.reserved_addLevel alloc, ?below⟩, Or.inl,
    fun _ known _ => leveled.read_newRoot alloc known _, ?live, ?same⟩
  case roots =>
    rintro (_ | b) live
    · exact Or.inl (leveled.roots .kas trivial)
    · by_cases same : b = a
      · rw [same]
        exact Or.inr ⟨rfl, by simp [Machine.asX86, newSlot]⟩
      · have used : Used s.toMachine b := by
          simpa [LiveSpace, Used, Function.update_of_ne same] using live
        have root := leveled.roots (.slot b) used
        exact Or.inl (by simpa [Machine.asX86, Function.update_of_ne same] using root)
  case below =>
    intro l t i above known links
    dsimp only at links ⊢
    rcases known with old | ⟨top, rfl⟩
    · rw [leveled.read_newRoot alloc old] at links ⊢
      exact Or.inl (leveled.below above old links)
    · obtain rfl : l = 3 := Nat.succ.inj top
      rcases lt_or_ge i kernelPml4Start with lower | upper
      · rw [readEntry_newRootMem_lower m kernelRoot t lower, LinksAt, present_zero] at links
        exact absurd links.1 (by decide)
      · rw [leveled.read_upper alloc kernel upper] at links ⊢
        exact Or.inl (leveled.below above kernel links)
  case live =>
    rintro (_ | b) live
    · trivial
    · simpa [LiveSpace, Used, Function.update_of_ne (other live)] using live
  case same =>
    rintro (_ | b) live
    · rfl
    · simp [Machine.asX86, Function.update_of_ne (other live)]

/-- A new space shares the upper half of the kernel's PML4. -/
def SharesUpper (k : Machine) (kernelRoot : PhysAddr) (aspace : AddressSpace) : Prop :=
  LiveSpace k aspace ∧ ∀ i, kernelPml4Start ≤ i →
    readEntry k.mem (k.asX86 aspace).pml4Phys i = readEntry k.mem kernelRoot i

theorem newFromKernel_leveled {kernelRoot : PhysAddr} (leveled : Leveled level s)
    (kernel : level 4 kernelRoot) :
    ∃ level', KeepsLevels level level' s ((newFromKernel kernelRoot).exec s).2 ∧
      ∀ aspace, ((newFromKernel kernelRoot).exec s).1 = .ok aspace →
        SharesUpper ((newFromKernel kernelRoot).exec s).2.toMachine kernelRoot aspace := by
  rcases newFromKernel_cases kernelRoot s with
    ⟨al, m, alloc, done⟩ | ⟨f, al, m, alloc, ⟨-, done⟩ | ⟨a, free, done⟩⟩
  · rw [done]
    exact ⟨level, leveled.refused alloc, by rintro aspace ⟨⟩⟩
  · rw [done]
    exact ⟨level, leveled.leaked kernelRoot alloc, by rintro aspace ⟨⟩⟩
  · rw [done]
    refine ⟨_, leveled.newSpace kernel free alloc, fun aspace ok => ?_⟩
    obtain rfl := Except.ok.inj ok
    refine ⟨by simp [LiveSpace, Used, newSlot], fun i upper => ?_⟩
    have root : (newSlot a f).space.pml4Phys = f := rfl
    simp only [Machine.asX86, Function.update_self, root]
    rw [leveled.read_upper alloc kernel upper, leveled.read_newRoot alloc kernel]

theorem addressSpaceNew_leveled (cpu : Cpu) (leveled : Leveled level s) :
    ∃ level', KeepsLevels level level' s ((addressSpaceNew cpu).exec s).2 ∧
      ∀ aspace, ((addressSpaceNew cpu).exec s).1 = .ok aspace →
        SharesUpper ((addressSpaceNew cpu).exec s).2.toMachine
          (s.asX86 .kas).pml4Phys aspace := by
  obtain ⟨s₀, adopts, ended⟩ := addressSpaceNew_cases cpu s
  obtain rfl := adopts.once leveled.kernel
  rcases ended with failed | ⟨kernel, known, done⟩
  · rw [failed]
    exact ⟨level, .refl leveled, by rintro aspace ⟨⟩⟩
  · have root : (s₀.asX86 .kas).pml4Phys = kernel.pml4Phys := by
      rw [Machine.asX86, known]
      rfl
    rw [done, root]
    exact newFromKernel_leveled leveled (root ▸ leveled.roots .kas trivial)

/-! ### Runs -/

/-- The call creates a space, or updates a page of a live one, the kernel's
included, that no large page covers. -/
def AnyCall (k : Machine) : Call → Prop
  | .new _ => True
  | .destroy _ => False
  | .map aspace v _ _ | .unmap aspace v | .protect aspace v _ =>
      LiveSpace k aspace ∧ largePage k.mem (k.asX86 aspace).pml4Phys v = false

theorem anyCall_leveled {s' : Sys A} {call : Call} {result : Except MapError AddressSpace}
    (leveled : Leveled level s) (may : AnyCall s.toMachine call)
    (done : call.exec s = (result, s')) : ∃ level', KeepsLevels level level' s s' := by
  cases call with
  | new cpu =>
      obtain ⟨level', keeps, -⟩ := addressSpaceNew_leveled cpu leveled
      rw [Call.exec] at done
      rw [done] at keeps
      exact ⟨level', keeps⟩
  | destroy aspace => exact may.elim
  | map aspace v p flags =>
      obtain ⟨-, rfl⟩ := Prod.mk.inj done
      exact map4k_leveled p flags leveled may.1 may.2
  | unmap aspace v =>
      obtain ⟨-, rfl⟩ := Prod.mk.inj done
      exact ⟨level, replaceLeaf_leveled _ leveled may.1 may.2⟩
  | protect aspace v flags =>
      obtain ⟨-, rfl⟩ := Prod.mk.inj done
      exact ⟨level, replaceLeaf_leveled _ leveled may.1 may.2⟩

theorem anyRun_leveled {s' : Sys A} {history : List Event} (leveled : Leveled level s)
    (run : Runs AnyCall s history s') : ∃ level', KeepsLevels level level' s s' := by
  induction run with
  | start => exact ⟨level, .refl leveled⟩
  | step _ may done inductionHypothesis =>
      obtain ⟨level₁, before⟩ := inductionHypothesis
      obtain ⟨level₂, after⟩ := anyCall_leveled before.leveled may done
      exact ⟨level₂, before.trans after⟩

end

end RincOs
