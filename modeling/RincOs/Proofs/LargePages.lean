/-
Module: RincOs.Proofs.LargePages
Purpose: Where the mapping operations write.  At an address the processor maps
  by 4 KiB pages they write page tables and new frames only; inside a large page
  they take the mapped data for tables.
Trusted boundary: none
Main exports:
  WalksTables, Grown, ensurePath_tables, UpdateSafe, updateSafe_iff
-/
import RincOs.Proofs.BumpAlloc
import RincOs.Proofs.KernelTables

namespace RincOs

open RadixForest LawfulFrameAlloc

variable {A : Type}

/-! ### Tables on the way to a page -/

/-- Every table the backend meets on the way to the page of `v` is a table for
the processor too. -/
def WalksTables (m : Mem) (root : PhysAddr) (v : VirtAddr) : Prop :=
  ∀ {path t}, path <+: tablePath v → walk (nextTable m) root path = some t → IsTable m root t

theorem tableAt_pdpt {m : Mem} {root t : PhysAddr} {i : Fin entryCount}
    (slot : nextTable m root i = some t) : TableAt m root 3 t := by
  obtain ⟨isPresent, rfl⟩ := nextTable_eq_some.mp slot
  exact .pdpt i isPresent

theorem tableAt_inner {m : Mem} {root t child : PhysAddr} {i : Fin entryCount} {level : Nat}
    (above : TableAt m root (level + 2) t) (bounded : level < 2)
    (slot : nextTable m t i = some child) (small : isLarge (readEntry m t i) = false) :
    TableAt m root (level + 1) child := by
  obtain ⟨isPresent, rfl⟩ := nextTable_eq_some.mp slot
  exact .inner above bounded i isPresent (by simp [small])

theorem walksTables_of_small {m : Mem} {root : PhysAddr} {v : VirtAddr}
    (small : largePage m root v = false) : WalksTables m root v := by
  intro path t initial reached
  have cases : path = [] ∨ path = [pml4Index v] ∨ path = [pml4Index v, pdptIndex v] ∨
      path = tablePath v := by
    obtain ⟨rest, whole⟩ := initial
    rcases path with _ | ⟨i, _ | ⟨j, _ | ⟨k, _ | ⟨l, path⟩⟩⟩⟩ <;>
      simp_all [tablePath]
  -- the large-page test, in terms of the tables met
  have notLarge : ∀ {t1 t2}, nextTable m root (pml4Index v) = some t1 →
      nextTable m t1 (pdptIndex v) = some t2 →
        isLarge (readEntry m t1 (pdptIndex v)) = false ∧
          ∀ {t3}, nextTable m t2 (pdIndex v) = some t3 →
            isLarge (readEntry m t2 (pdIndex v)) = false := by
    intro t1 t2 slot1 slot2
    obtain ⟨present1, rfl⟩ := nextTable_eq_some.mp slot1
    obtain ⟨present2, rfl⟩ := nextTable_eq_some.mp slot2
    simp only [largePage, present1, present2, Bool.true_and, Bool.or_eq_false_iff,
      Bool.and_eq_false_iff] at small
    refine ⟨small.1, fun slot3 => ?_⟩
    have present3 := (nextTable_eq_some.mp slot3).1
    simpa [present3] using small.2
  rcases cases with rfl | rfl | rfl | rfl
  · exact ⟨4, Option.some.inj reached ▸ .pml4⟩
  · simp only [walk_cons, walk_nil, Option.bind_eq_some_iff, Option.some.injEq] at reached
    obtain ⟨t1, slot1, rfl⟩ := reached
    exact ⟨3, tableAt_pdpt slot1⟩
  · simp only [walk_cons, walk_nil, Option.bind_eq_some_iff, Option.some.injEq] at reached
    obtain ⟨t1, slot1, t2, slot2, rfl⟩ := reached
    exact ⟨2, tableAt_inner (tableAt_pdpt slot1) (by decide) slot2 (notLarge slot1 slot2).1⟩
  · simp only [tablePath, walk_cons, walk_nil, Option.bind_eq_some_iff,
      Option.some.injEq] at reached
    obtain ⟨t1, slot1, t2, slot2, t3, slot3, rfl⟩ := reached
    obtain ⟨small2, small3⟩ := notLarge slot1 slot2
    have pd := tableAt_inner (tableAt_pdpt slot1) (by decide) slot2 small2
    exact ⟨1, tableAt_inner pd (by decide) slot3 (small3 slot3)⟩

/-! ### Creating tables under any tree -/

section

variable [PageTableFrameAlloc A] [LawfulFrameAlloc A]
variable {root : PhysAddr} {s s₁ s₂ : Sys (Recorded A)} {frames : List PhysAddr}

/-- Memory changed only inside tables of `root` and the given frames. -/
def WritesWithin (m m' : Mem) (root : PhysAddr) (frames : List PhysAddr) : Prop :=
  ∀ x, m' x ≠ m x → ∃ t, InFrame t x ∧ (IsTable m root t ∨ t ∈ frames)

theorem WritesWithin.refl (m : Mem) (root : PhysAddr) : WritesWithin m m root [] :=
  fun _ changed => absurd rfl changed

/-- `s₁` is `s` after `frames` were obtained and linked.  Nothing is assumed of
the tree, so a new frame may have been one of its tables; but a present entry of
a new frame points to a new frame. -/
structure Grown (root : PhysAddr) (s s₁ : Sys (Recorded A)) (frames : List PhysAddr) :
    Prop where
  valid : Valid s₁.ptAlloc
  answers : s₁.ptAlloc.answers = s.ptAlloc.answers ++ frames.map some
  isFrame : ∀ f ∈ frames, IsFrame f
  closed : ∀ f ∈ frames, ∀ i child, nextTable s₁.mem f i = some child → child ∈ frames
  writes : WritesWithin s.mem s₁.mem root frames

theorem Grown.refl (valid : Valid s.ptAlloc) : Grown root s s [] where
  valid := valid
  answers := by simp
  isFrame := by simp
  closed := by simp
  writes := .refl s.mem root

/-- Linking one more frame into a table of the tree or a new one. -/
theorem Grown.link {parent f : PhysAddr} {i : Fin entryCount} {user : Bool} {al : Recorded A}
    {m : Mem} (grown : Grown root s s₁ frames) (parentFrame : IsFrame parent)
    (parentKnown : IsTable s.mem root parent ∨ parent ∈ frames)
    (alloc : allocFrame4k s₁.ptAlloc s₁.mem = (some f, al, m)) :
    Grown root s { s₁ with ptAlloc := al, mem := linkTable m parent i f user }
      (frames ++ [f]) := by
  obtain ⟨valid, newFrame, -, -, outside⟩ := alloc_some grown.valid alloc
  have isFrame : ∀ g ∈ frames ++ [f], IsFrame g := by
    intro g known
    rcases List.mem_append.mp known with old | new
    · exact grown.isFrame g old
    · exact List.mem_singleton.mp new ▸ newFrame
  refine ⟨valid, ?answers, isFrame, ?closed, ?writes⟩
  case answers =>
    rw [(recorded_alloc alloc).2, grown.answers]
    simp
  case closed =>
    intro g known j child slot
    obtain ⟨isPresent, rfl⟩ := nextTable_eq_some.mp slot
    rcases present_linkTable outside parentFrame newFrame (isFrame g known) isPresent
      with ⟨-, -, linked⟩ | ⟨new, same⟩
    · rw [linked, tableEntry_and_addrMask, newFrame]
      simp
    · rw [same] at isPresent ⊢
      have old : g ∈ frames := by simpa [new] using known
      exact List.mem_append_left [f]
        (grown.closed g old j _ (nextTable_eq_some.mpr ⟨isPresent, rfl⟩))
  case writes =>
    intro x changed
    by_cases inNew : InFrame f x
    · exact ⟨f, inNew, Or.inr (by simp)⟩
    · by_cases slot : x = entryAddr parent i
      · exact ⟨parent, slot ▸ inFrame_entryAddr parent i,
          parentKnown.imp_right (List.mem_append_left [f])⟩
      · have before : s₁.mem x ≠ s.mem x := by
          rwa [← linkTable_outside outside inNew slot]
        obtain ⟨t, inside, known⟩ := grown.writes x before
        exact ⟨t, inside, known.imp_right (List.mem_append_left [f])⟩

/-- How a descent below new frames ends. -/
def GrowsTo (root : PhysAddr) (s : Sys (Recorded A)) :
    Except MapError PhysAddr × Sys (Recorded A) → Prop
  | (.ok t, s') => ∃ frames, Grown root s s' frames ∧ t ∈ frames
  | (.error _, s') => ∃ frames, WritesWithin s.mem s'.mem root frames ∧
      ∀ f ∈ frames, some f ∈ answersDuring s s'

/-- How a descent under any tree ends.  On success the table reached is a table
of the tree, found without creating anything, or a new frame. -/
def DescendsIn (root : PhysAddr) (s : Sys (Recorded A)) (path : List (Fin entryCount)) :
    Except MapError PhysAddr × Sys (Recorded A) → Prop
  | (.ok t, s') =>
      (s' = s ∧ walk (nextTable s.mem) root path = some t) ∨
        ∃ frames, Grown root s s' frames ∧ t ∈ frames
  | (.error _, s') => ∃ frames, WritesWithin s.mem s'.mem root frames ∧
      ∀ f ∈ frames, some f ∈ answersDuring s s'

theorem Grown.refused {al : Recorded A} {m : Mem} (grown : Grown root s s₁ frames)
    (alloc : allocFrame4k s₁.ptAlloc s₁.mem = (none, al, m)) :
    ∃ frames, WritesWithin s.mem m root frames ∧
      ∀ f ∈ frames, some f ∈ answersDuring s { s₁ with ptAlloc := al, mem := m } := by
  obtain ⟨-, rfl, -⟩ := alloc_none grown.valid alloc
  refine ⟨frames, grown.writes, fun f known => ?_⟩
  simp [answersDuring, (recorded_alloc alloc).2, grown.answers, known]

/-- Below a new frame every table is a new frame. -/
theorem ensurePath_fresh {path : List (Fin entryCount)} {user : Bool} {t : PhysAddr}
    (grown : Grown root s s₁ frames) (known : t ∈ frames) :
    GrowsTo root s ((ensurePath user t path).exec s₁) := by
  induction path generalizing s₁ frames t with
  | nil => exact ⟨frames, grown, known⟩
  | cons i path inductionHypothesis =>
      rw [ensurePath, MmuM.exec_bind, ensureTable_exec]
      by_cases isPresent : present (readEntry s₁.mem t i) = true
      · rw [if_pos isPresent]
        exact inductionHypothesis grown
          (grown.closed t known i _ (nextTable_eq_some.mpr ⟨isPresent, rfl⟩))
      · rw [if_neg isPresent]
        rcases alloc : allocFrame4k s₁.ptAlloc s₁.mem with ⟨_ | f, al, m⟩
        · exact grown.refused alloc
        · exact inductionHypothesis
            (grown.link (grown.isFrame t known) (Or.inr known) alloc) (by simp)

theorem GrowsTo.descendsIn {path : List (Fin entryCount)}
    {outcome : Except MapError PhysAddr × Sys (Recorded A)}
    (ends : GrowsTo root s outcome) : DescendsIn root s path outcome := by
  obtain ⟨e | pt, s'⟩ := outcome
  · exact ends
  · exact Or.inr ends

theorem ensurePath_tables {above rest : List (Fin entryCount)} {user : Bool} {t : PhysAddr}
    {v : VirtAddr} (walks : WalksTables s.mem root v) (rootFrame : IsFrame root)
    (valid : Valid s.ptAlloc) (whole : above ++ rest = tablePath v)
    (reached : walk (nextTable s.mem) root above = some t) :
    DescendsIn root s (tablePath v) ((ensurePath user t rest).exec s) := by
  induction rest generalizing above t with
  | nil =>
      rw [List.append_nil] at whole
      exact Or.inl ⟨rfl, whole ▸ reached⟩
  | cons i rest inductionHypothesis =>
      rw [ensurePath, MmuM.exec_bind, ensureTable_exec]
      by_cases isPresent : present (readEntry s.mem t i) = true
      · rw [if_pos isPresent]
        have child : walk (nextTable s.mem) root (above ++ [i]) =
            some (readEntry s.mem t i &&& addrMask) := by
          rw [walk_concat, reached]
          exact nextTable_eq_some.mpr ⟨isPresent, rfl⟩
        exact inductionHypothesis (by simpa using whole) child
      · rw [if_neg isPresent]
        have table : IsTable s.mem root t := walks ⟨i :: rest, whole⟩ reached
        have start : Grown root s s [] := .refl valid
        rcases alloc : allocFrame4k s.ptAlloc s.mem with ⟨_ | f, al, m⟩
        · exact start.refused alloc
        · have grown : Grown root s
              { s with ptAlloc := al, mem := linkTable m t i f user } ([] ++ [f]) :=
            start.link (table.isFrame rootFrame) (Or.inl table) alloc
          exact (ensurePath_fresh grown (by simp)).descendsIn

theorem DescendsIn.writes {v : VirtAddr} {pt : PhysAddr}
    (walks : WalksTables s.mem root v)
    (descends : DescendsIn root s (tablePath v) (.ok pt, s₁)) :
    ∃ frames, WritesWithin s.mem s₁.mem root frames ∧
      (∀ f ∈ frames, some f ∈ answersDuring s s₁) ∧
      (IsTable s.mem root pt ∨ pt ∈ frames) := by
  rcases descends with ⟨rfl, reached⟩ | ⟨frames, grown, known⟩
  · exact ⟨[], .refl _ root, by simp,
      Or.inl (walks List.prefix_rfl reached)⟩
  · refine ⟨frames, grown.writes, fun f inside => ?_, Or.inr known⟩
    simp [answersDuring, grown.answers, inside]

omit [PageTableFrameAlloc A] [LawfulFrameAlloc A] in
/-- Writing an entry of a table or a new frame. -/
theorem WritesWithin.writeEntry {m m' : Mem} {pt : PhysAddr}
    (within : WritesWithin m m' root frames) (known : IsTable m root pt ∨ pt ∈ frames)
    (i : Fin entryCount) (w : Word) :
    WritesWithin m (writeEntry m' pt i w) root frames := by
  intro x changed
  by_cases slot : x = entryAddr pt i
  · exact ⟨pt, slot ▸ inFrame_entryAddr pt i, known⟩
  · rw [writeEntry_apply, if_neg slot] at changed
    exact within x changed

/-- Where no large page is in the way, `map_4k` writes tables and new frames. -/
theorem map4k_writes {aspace : AddressSpace} {v : VirtAddr} {p : PhysAddr} {flags : MapFlags}
    {result : Except MapError PUnit} {s' : Sys (Recorded A)}
    (walks : WalksTables s.mem (s.asX86 aspace).pml4Phys v)
    (rootFrame : IsFrame (s.asX86 aspace).pml4Phys) (valid : Valid s.ptAlloc)
    (ran : (map4k aspace v p flags).exec s = (result, s')) :
    ∃ frames, WritesWithin s.mem s'.mem (s.asX86 aspace).pml4Phys frames ∧
      ∀ f ∈ frames, some f ∈ answersDuring s s' := by
  have still : WritesWithin s.mem s.mem (s.asX86 aspace).pml4Phys [] :=
    .refl _ _
  rw [map4k_exec] at ran
  split at ran
  · cases ran
    exact ⟨[], still, by simp⟩
  split at ran
  · cases ran
    exact ⟨[], still, by simp⟩
  have descends : DescendsIn (s.asX86 aspace).pml4Phys s (tablePath v)
      ((ensurePath (flags.contains .user) _ (tablePath v)).exec s) :=
    ensurePath_tables walks rootFrame valid (List.nil_append _) rfl
  generalize (ensurePath _ _ (tablePath v)).exec s = outcome at descends ran
  obtain ⟨e | pt, s₁⟩ := outcome
  · cases ran
    exact descends
  · obtain ⟨frames, within, answered, known⟩ := descends.writes walks
    dsimp only at ran
    rw [mapLeaf] at ran
    split at ran
    · cases ran
      exact ⟨frames, within, answered⟩
    · cases ran
      exact ⟨frames, within.writeEntry known _ _, answered⟩

omit [PageTableFrameAlloc A] [LawfulFrameAlloc A] in
theorem replaceLeaf_writes {aspace : AddressSpace} {v : VirtAddr} {s : Sys A}
    (walks : WalksTables s.mem (s.asX86 aspace).pml4Phys v)
    (update : Bool → Word → Word) :
    WritesWithin s.mem ((replaceLeaf aspace v update).exec s).2.mem
      (s.asX86 aspace).pml4Phys [] := by
  have still : WritesWithin s.mem s.mem (s.asX86 aspace).pml4Phys [] :=
    .refl _ _
  rw [replaceLeaf_exec]
  split
  · exact still
  split
  · exact still
  cases found : walkToPt s.mem (s.asX86 aspace).pml4Phys v with
  | none => exact still
  | some pt =>
      have table : IsTable s.mem (s.asX86 aspace).pml4Phys pt :=
        walks List.prefix_rfl (walkToPt_eq_walk _ _ v ▸ found)
      dsimp only
      split
      · exact still
      · exact still.writeEntry (Or.inl table) _ _

end

/-! ### Safety of an update -/

/-- The call updates the page of `v` in `aspace`. -/
def Call.Updates (aspace : AddressSpace) (v : VirtAddr) : Call → Prop
  | .map target w _ _ | .unmap target w | .protect target w _ => target = aspace ∧ w = v
  | _ => False

/-- With any allocator and any other arguments, updates of the page of `v` write
only tables of the space and frames obtained during the call, and if the address
lies in a large page they fail and write nothing. -/
structure UpdateSafe (k : Machine) (aspace : AddressSpace) (v : VirtAddr) : Prop where
  inTables : ∀ (A : Type) [PageTableFrameAlloc A] [LawfulFrameAlloc A]
    {s s' : Sys (Recorded A)} {call : Call} {result : Except MapError AddressSpace},
    s.toMachine = k → Valid s.ptAlloc → call.Updates aspace v →
      call.exec s = (result, s') → ∀ x, s'.mem x ≠ k.mem x →
        ∃ t, InFrame t x ∧
          (IsTable k.mem (k.asX86 aspace).pml4Phys t ∨ some t ∈ answersDuring s s')
  largeRefused : largePage k.mem (k.asX86 aspace).pml4Phys v = true →
    ∀ (A : Type) [PageTableFrameAlloc A] [LawfulFrameAlloc A]
    {s s' : Sys (Recorded A)} {call : Call} {result : Except MapError AddressSpace},
    s.toMachine = k → Valid s.ptAlloc → call.Updates aspace v →
      call.exec s = (result, s') → (∃ e, result = .error e) ∧ s'.mem = k.mem

theorem updateSafe_of_small {k : Machine} {aspace : AddressSpace} {v : VirtAddr}
    (rootFrame : IsFrame (k.asX86 aspace).pml4Phys)
    (small : largePage k.mem (k.asX86 aspace).pml4Phys v = false) :
    UpdateSafe k aspace v where
  inTables A _ _ s s' call result machine valid updates done x changed := by
    subst machine
    have walks : WalksTables s.mem _ v := walksTables_of_small small
    cases call with
    | map target w p flags =>
        obtain ⟨rfl, rfl⟩ := updates
        obtain ⟨-, rfl⟩ := Prod.mk.inj done
        obtain ⟨frames, within, answered⟩ := map4k_writes walks rootFrame valid rfl
        obtain ⟨t, inside, known⟩ := within x changed
        exact ⟨t, inside, known.imp_right (answered t)⟩
    | unmap target w =>
        obtain ⟨rfl, rfl⟩ := updates
        obtain ⟨-, rfl⟩ := Prod.mk.inj done
        have within : WritesWithin s.mem ((unmap4k target w).exec s).2.mem _ [] :=
          replaceLeaf_writes walks _
        obtain ⟨t, inside, known⟩ := within x changed
        exact ⟨t, inside, known.imp_right (by simp)⟩
    | protect target w flags =>
        obtain ⟨rfl, rfl⟩ := updates
        obtain ⟨-, rfl⟩ := Prod.mk.inj done
        have within : WritesWithin s.mem ((protect4k target w flags).exec s).2.mem _ [] :=
          replaceLeaf_writes walks _
        obtain ⟨t, inside, known⟩ := within x changed
        exact ⟨t, inside, known.imp_right (by simp)⟩
    | new => exact updates.elim
    | destroy => exact updates.elim
  largeRefused covered := by simp [small] at covered

/-! ### Inside a large page -/

/-- Where the backend finds tables, it creates none and goes on below them. -/
theorem ensurePath_of_walk [PageTableFrameAlloc A] {s : Sys A}
    {path : List (Fin entryCount)} {t t' : PhysAddr}
    (walked : walk (nextTable s.mem) t path = some t') (user : Bool)
    (rest : List (Fin entryCount)) :
    (ensurePath user t (path ++ rest)).exec s = (ensurePath user t' rest).exec s := by
  induction path generalizing t with
  | nil =>
      obtain rfl := Option.some.inj walked
      rfl
  | cons i path inductionHypothesis =>
      rw [walk_cons, Option.bind_eq_some_iff] at walked
      obtain ⟨child, slot, walked⟩ := walked
      obtain ⟨isPresent, rfl⟩ := nextTable_eq_some.mp slot
      rw [List.cons_append, ensurePath, MmuM.exec_bind, ensureTable_exec, if_pos isPresent]
      exact inductionHypothesis walked

/-- The leaf write of `map_4k` clears no present bit anywhere. -/
theorem mapLeaf_present {v : VirtAddr} {p pt t : PhysAddr} {flags : MapFlags}
    {i : Fin entryCount} {s : Sys A} (isPresent : present (readEntry s.mem t i) = true) :
    present (readEntry (mapLeaf v p flags pt s).2.mem t i) = true := by
  rw [mapLeaf]
  split
  · exact isPresent
  · dsimp only
    rw [readEntry, writeEntry_apply]
    split
    · exact present_leafWord _ _ _
    · exact isPresent

section

variable [PageTableFrameAlloc A] {s : Sys A} {aspace : AddressSpace} {v : VirtAddr}
variable {pt : PhysAddr}

omit [PageTableFrameAlloc A] in
/-- If the words the backend reads are all present, `unmap_4k` clears the last. -/
theorem unmap4k_of_walk (aligned : aligned4k v = true) (canonical : isCanonical v = true)
    (walked : walkToPt s.mem (s.asX86 aspace).pml4Phys v = some pt)
    (isPresent : present (readEntry s.mem pt (ptIndex v)) = true) :
    ((unmap4k aspace v).exec s).1 = .ok ⟨⟩ := by
  rw [unmap4k, replaceLeaf_exec, aligned, canonical, walked]
  simp [isPresent]

/-- If only the last word is absent, `map_4k` overwrites it. -/
theorem map4k_of_walk {p : PhysAddr} (flags : MapFlags) (aligned : aligned4k v = true)
    (alignedPhys : aligned4k p = true) (canonical : isCanonical v = true)
    (walked : walkToPt s.mem (s.asX86 aspace).pml4Phys v = some pt)
    (absent : present (readEntry s.mem pt (ptIndex v)) = false) :
    ((map4k aspace v p flags).exec s).1 = .ok ⟨⟩ := by
  rw [walkToPt_eq_walk] at walked
  have path : (ensurePath (flags.contains .user) (s.asX86 aspace).pml4Phys
      (tablePath v)).exec s = (.ok pt, s) := ensurePath_of_walk walked _ []
  rw [map4k_exec, aligned, alignedPhys, canonical, path]
  simp [mapLeaf, absent]

/-- If the last table is missing and the allocator has a frame, `map_4k` links
it where the backend takes the PD to be. -/
theorem map4k_links {p f : PhysAddr} (flags : MapFlags) {al : A} {m : Mem} {pd : PhysAddr}
    (aligned : aligned4k v = true) (alignedPhys : aligned4k p = true)
    (canonical : isCanonical v = true)
    (walked : walk (nextTable s.mem) (s.asX86 aspace).pml4Phys
      [pml4Index v, pdptIndex v] = some pd)
    (absent : present (readEntry s.mem pd (pdIndex v)) = false)
    (alloc : allocFrame4k s.ptAlloc s.mem = (some f, al, m)) :
    present (readEntry ((map4k aspace v p flags).exec s).2.mem pd (pdIndex v)) = true := by
  have path : (ensurePath (flags.contains .user) (s.asX86 aspace).pml4Phys
      (tablePath v)).exec s = (.ok f, { s with
        ptAlloc := al
        mem := linkTable m pd (pdIndex v) f (flags.contains .user) }) := by
    refine (ensurePath_of_walk walked _ [pdIndex v]).trans ?_
    rw [ensurePath, MmuM.exec_bind, ensureTable_exec, absent, alloc]
    rfl
  rw [map4k_exec, aligned, alignedPhys, canonical, path]
  refine mapLeaf_present ?_
  rw [linkTable, readEntry_writeEntry_self, present_tableEntry]

end

/-- A large page makes one of the updates succeed, or change memory. -/
theorem not_updateSafe_of_large {k : Machine} {aspace : AddressSpace} {v : VirtAddr}
    (aligned : aligned4k v = true) (canonical : isCanonical v = true)
    (covered : largePage k.mem (k.asX86 aspace).pml4Phys v = true) :
    ¬ UpdateSafe k aspace v := by
  intro safe
  let s : Sys (Recorded BumpAlloc) := { k with ptAlloc := ⟨⟨0⟩, []⟩ }
  have refused : ∀ call : Call, call.Updates aspace v →
      (∃ e, (call.exec s).1 = .error e) ∧ (call.exec s).2.mem = k.mem := fun call updates =>
    safe.largeRefused covered BumpAlloc rfl trivial updates rfl
  have succeeds : ∀ {outcome : Except MapError PUnit × Sys (Recorded BumpAlloc)} {e},
      outcome.1 = .ok ⟨⟩ → (withHandle aspace outcome).1 ≠ .error e := by
    rintro ⟨-, s'⟩ e rfl failed
    cases failed
  have zeroAligned : aligned4k 0 = true := by decide
  cases walked : walkToPt s.mem (s.asX86 aspace).pml4Phys v with
  | some pt =>
      cases leaf : present (readEntry s.mem pt (ptIndex v)) with
      | true =>
          obtain ⟨⟨e, failed⟩, -⟩ := refused (.unmap aspace v) ⟨rfl, rfl⟩
          have done := unmap4k_of_walk aligned canonical walked leaf
          exact succeeds done failed
      | false =>
          obtain ⟨⟨e, failed⟩, -⟩ := refused (.map aspace v 0 .read) ⟨rfl, rfl⟩
          have done := map4k_of_walk .read aligned zeroAligned canonical walked leaf
          exact succeeds done failed
  | none =>
      simp only [largePage, Bool.and_eq_true] at covered
      obtain ⟨⟨present1, present2⟩, -⟩ := covered
      obtain ⟨pd, slots⟩ : ∃ pd, walk (nextTable s.mem) (s.asX86 aspace).pml4Phys
          [pml4Index v, pdptIndex v] = some pd := by
        have slot1 := nextTable_eq_some.mpr ⟨present1, rfl⟩
        have slot2 := nextTable_eq_some.mpr ⟨present2, rfl⟩
        exact ⟨_, by rw [walk_cons, slot1, Option.bind_some, walk_cons, slot2]; rfl⟩
      have absent : present (readEntry s.mem pd (pdIndex v)) = false := by
        rw [walkToPt_eq_walk] at walked
        refine nextTable_eq_none.mp ?_
        have whole : tablePath v = [pml4Index v, pdptIndex v] ++ [pdIndex v] := rfl
        rwa [whole, walk_concat, slots, Option.bind_some] at walked
      obtain ⟨-, unchanged⟩ := refused (.map aspace v 0 .read) ⟨rfl, rfl⟩
      have linked := map4k_links .read aligned zeroAligned canonical slots absent rfl
      rw [show ((map4k aspace v 0 .read).exec s).2.mem = s.mem from unchanged, absent] at linked
      cases linked

/-- The updates of a page are safe exactly when no large page covers it. -/
theorem updateSafe_iff (k : Machine) (aspace : AddressSpace) (v : VirtAddr)
    (aligned : aligned4k v = true) (canonical : isCanonical v = true)
    (rootFrame : IsFrame (k.asX86 aspace).pml4Phys) :
    UpdateSafe k aspace v ↔ largePage k.mem (k.asX86 aspace).pml4Phys v = false := by
  refine ⟨fun safe => ?_, updateSafe_of_small rootFrame⟩
  by_contra covered
  exact not_updateSafe_of_large aligned canonical (by simpa using covered) safe

/-! ### A kernel with a 1 GiB page -/

/-- A machine that adopted the bootloader's tables: a PML4 and a PDPT, which maps
the bottom of the upper half by the 1 GiB page at physical 1 GiB. -/
def adoptedSys : Sys (Recorded BumpAlloc) :=
  { bootSys reclaimMem with
    kas := some ⟨0x100000⟩
    kasHandle := some .kas }

/-- Outside the 1 GiB page the updates are safe. -/
theorem updateSafe_adoptedSys : UpdateSafe adoptedSys.toMachine .kas 0xffff800040000000 :=
  (updateSafe_iff adoptedSys.toMachine .kas 0xffff800040000000 (by decide) (by decide)
    (by decide)).mpr (by decide +kernel)

/-- Mapping a page inside it succeeds and writes an entry into the data at 1 GiB,
which is in no table and no new frame. -/
theorem map4k_writes_large_page :
    let outcome := (Call.map .kas 0xffff800000000000 0 .read).exec adoptedSys
    isCanonical 0xffff800000000000 = true ∧
      largePage adoptedSys.mem 0x100000 0xffff800000000000 = true ∧
      outcome.1 = .ok .kas ∧
      adoptedSys.mem 0x40000000 = 0 ∧ outcome.2.mem 0x40000000 = 0x1003 ∧
      answersDuring adoptedSys outcome.2 = [some 0x1000] ∧
      (∀ t, InFrame t 0x40000000 → ¬ IsTable adoptedSys.mem 0x100000 t) ∧
      ¬ UpdateSafe adoptedSys.toMachine .kas 0xffff800000000000 := by
  have covered : largePage adoptedSys.mem 0x100000 0xffff800000000000 = true := by
    decide +kernel
  refine ⟨by decide, covered, by decide +kernel, by decide +kernel, by decide +kernel,
    by decide +kernel, ?_, not_updateSafe_of_large (by decide) (by decide) covered⟩
  rintro t inside ⟨level, table⟩
  rcases table_reclaimMem table with ⟨-, rfl⟩ | ⟨-, rfl⟩ <;> revert inside <;> decide

end RincOs
