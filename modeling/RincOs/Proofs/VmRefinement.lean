/-
Module: RincOs.Proofs.VmRefinement
Purpose: The VM service refines its specification.  Page tables in memory stand
  for the partial maps and the table positions, the state of the allocator for the
  number of frames, and every call, failed ones included, is one step of the
  specification.
Trusted boundary: none
Main exports:
  CountedFrameAlloc, bootAlloc_counted, TablesAt, SpaceAbstracts, Abstracts,
  ensurePath_reachTables, vmCall_refines, serialVm_refines, concurrentVm_refines
-/
import RincOs.Proofs.ConcurrentVm
import RincOs.Proofs.FrameConservation
import RincOs.Proofs.PageMapRefinement
import RincOs.Spec.VmMachine

namespace RincOs

open RadixForest LawfulFrameAlloc

variable {A C : Type}

/-! ### Counting frames -/

/-- An allocator whose answers depend on the number of its frames only. -/
class CountedFrameAlloc (A : Type) [PageTableFrameAlloc A] [LawfulFrameAlloc A] where
  /-- The allocator has as many frames as the pool; those that are lost do not count. -/
  Counts : A → FramePool → Prop
  refused : ∀ {a a' : A} {m m' : Mem} {pool : FramePool}, Valid a → Counts a pool →
    allocFrame4k a m = (none, a', m') → pool.take = none ∧ Counts a' pool
  served : ∀ {a a' : A} {m m' : Mem} {f : PhysAddr} {pool : FramePool}, Valid a →
    Counts a pool → allocFrame4k a m = (some f, a', m') →
      ∃ pool', pool.take = some pool' ∧ Counts a' pool'
  returned : ∀ {a : A} {f : PhysAddr} {pool : FramePool}, Counts a pool →
    Counts (freeFrame4k a f) pool.give
  dropped : ∀ {a : A} {pool : FramePool}, Counts a pool → Counts a pool.drop

open CountedFrameAlloc

theorem BootValid.inRange {map : BootMap} {alloc : BootPtAlloc} (valid : BootValid map alloc) :
    InRange map.view alloc where
  below := by
    intro i inside usable
    rw [valid.count] at inside
    have below := map.below i inside usable
    rw [cursorLimit]
    omega
  cursor := by
    have cursor := valid.cursor
    rw [cursorLimit]
    omega

/-- The numbers of frames of the boot allocator. -/
structure BootCounts (view : Nat → MemMapEntry) (alloc : BootPtAlloc) (pool : FramePool) :
    Prop where
  listed : alloc.freeList.length = pool.listed
  ahead : (alloc.remaining view).length = pool.ahead

section

variable {view : Nat → MemMapEntry} {alloc alloc' : BootPtAlloc} {pool : FramePool}

theorem TakesTop.refused (taken : TakesTop view alloc alloc' none)
    (counts : BootCounts view alloc pool) : pool.take = none ∧ BootCounts view alloc' pool := by
  have empty : alloc.pool view = [] := List.head?_eq_none_iff.mp taken.answer.symm
  have empty' : alloc'.pool view = [] := by rw [taken.pool, empty, List.tail_nil]
  obtain ⟨list, rest⟩ := List.append_eq_nil_iff.mp empty
  obtain ⟨list', rest'⟩ := List.append_eq_nil_iff.mp empty'
  obtain ⟨listed, ahead⟩ := counts
  rw [list] at listed
  rw [rest] at ahead
  refine ⟨?_, ?_, ?_⟩
  · simp [FramePool.take, ← listed, ← ahead]
  · rw [list', ← listed]
  · rw [rest', ← ahead]

theorem TakesTop.served {f : PhysAddr} (taken : TakesTop view alloc alloc' (some f))
    (counts : BootCounts view alloc pool) :
    ∃ pool', pool.take = some pool' ∧ BootCounts view alloc' pool' := by
  obtain ⟨listed, ahead⟩ := counts
  have pools : alloc'.freeList ++ alloc'.remaining view = (alloc.pool view).tail := taken.pool
  rw [BootPtAlloc.pool] at pools
  cases list : alloc.freeList with
  | nil =>
      have answer := taken.answer
      rw [BootPtAlloc.pool, list, List.nil_append] at answer
      obtain ⟨rest, split⟩ := List.head?_eq_some_iff.mp answer.symm
      have list' : alloc'.freeList = [] := by rw [taken.freeList, list, List.tail_nil]
      rw [list', list, List.nil_append, List.nil_append, split, List.tail_cons] at pools
      rw [list] at listed
      rw [split, List.length_cons] at ahead
      refine ⟨{ pool with ahead := rest.length }, ?_, ?_, ?_⟩
      · simp [FramePool.take, ← listed, ← ahead]
      · rw [list', ← listed]
      · rw [pools]
  | cons top rest =>
      have list' : alloc'.freeList = rest := by rw [taken.freeList, list, List.tail_cons]
      rw [list', list, List.cons_append, List.tail_cons] at pools
      rw [list, List.length_cons] at listed
      refine ⟨{ pool with listed := rest.length }, ?_, ?_, ?_⟩
      · simp [FramePool.take, ← listed]
      · rw [list']
      · rw [List.append_cancel_left pools, ahead]

theorem BootCounts.returned (counts : BootCounts view alloc pool) (f : PhysAddr) :
    BootCounts view (alloc.freeFrame4k f) pool.give := by
  obtain ⟨listed, ahead⟩ := counts
  rw [BootPtAlloc.freeFrame4k, FramePool.give, ← listed]
  by_cases room : alloc.freeList.length < maxFreeFrames
  · rw [dif_pos room, if_pos room]
    exact ⟨rfl, ahead⟩
  · rw [dif_neg room, if_neg room]
    exact ⟨rfl, ahead⟩

end

instance bootAlloc_counted (map : BootMap) : CountedFrameAlloc (BootAllocOver map) where
  Counts a pool := BootCounts map.view a.alloc pool
  refused valid counts done := by
    have taken := takeFrame_takesTop valid.inRange (bootAlloc_cases done).1
    exact taken.refused counts
  served valid counts done := by
    have taken := takeFrame_takesTop valid.inRange (bootAlloc_cases done).1
    exact taken.served counts
  returned counts := counts.returned _
  dropped counts := ⟨counts.listed, counts.ahead⟩

/-! ### Tables -/

/-- The listed positions are those at which the space has a table below its root. -/
def TablesAt (live : Fin maxAddressSpaces → Prop) (k : Machine) (a : Fin maxAddressSpaces)
    (tables : Finset (List (Fin entryCount))) : Prop :=
  ∀ path, path ∈ tables ↔ path ≠ [] ∧ ∃ t, HasTable live k a path t

/-- How a descent along a path and its specification ended. -/
structure DescentAgrees [PageTableFrameAlloc A] [LawfulFrameAlloc A] [CountedFrameAlloc A]
    (live : Fin maxAddressSpaces → Prop) (a : Fin maxAddressSpaces)
    (outcome : Except MapError PhysAddr × Sys A)
    (answer : Bool × Finset (List (Fin entryCount)) × FramePool) : Prop where
  reached : answer.1 = outcome.1.isOk
  tables : TablesAt live outcome.2.toMachine a answer.2.1
  pool : Counts outcome.2.ptAlloc answer.2.2

section

variable [PageTableFrameAlloc A] [LawfulFrameAlloc A]
variable {live : Fin maxAddressSpaces → Prop} {a : Fin maxAddressSpaces} {s : Sys A}
variable {tables : Finset (List (Fin entryCount))} {path : List (Fin entryCount)}
variable {parent : PhysAddr} {i : Fin entryCount}

omit [PageTableFrameAlloc A] [LawfulFrameAlloc A] in
/-- An entry is present exactly if its position is listed. -/
theorem TablesAt.present_iff (listing : TablesAt live s.toMachine a tables)
    (table : HasTable live s.toMachine a path parent) (admitted : LowerPath 3 (path ++ [i])) :
    path ++ [i] ∈ tables ↔ present (readEntry s.mem parent i) = true := by
  rw [listing]
  constructor
  · rintro ⟨-, t, there⟩
    obtain ⟨above, aboveTable, slot⟩ := there.parent
    rw [aboveTable.unique table] at slot
    exact (nextTable_eq_some.mp slot).1
  · intro isPresent
    exact ⟨by simp, _, table.child admitted (nextTable_eq_some.mpr ⟨isPresent, rfl⟩)⟩

/-- A new table is one more position. -/
theorem TablesAt.link {f : PhysAddr} {al : A} {m : Mem} {user : Bool}
    (listing : TablesAt live s.toMachine a tables) (inv : TreesInv live s)
    (table : HasTable live s.toMachine a path parent) (admitted : LowerPath 3 (path ++ [i]))
    (absent : present (readEntry s.mem parent i) = false)
    (alloc : allocFrame4k s.ptAlloc s.mem = (some f, al, m)) :
    TablesAt live { s.toMachine with mem := linkTable m parent i f user } a
      (insert (path ++ [i]) tables) := by
  obtain ⟨-, newFrame, free, -, outside⟩ := alloc_some inv.valid alloc
  have graft := link_graft user inv table admitted absent newFrame free outside
  have positions : ∀ {rest t},
      HasTable live { s.toMachine with mem := linkTable m parent i f user } a rest t ↔
        HasTable live s.toMachine a rest t ∨ a = a ∧ rest = path ++ [i] ∧ t = f :=
    graft.at_iff inv.forest
  intro rest
  rw [Finset.mem_insert, listing]
  constructor
  · rintro (rfl | ⟨deep, t, there⟩)
    · exact ⟨by simp, f, positions.mpr (Or.inr ⟨rfl, rfl, rfl⟩)⟩
    · exact ⟨deep, t, positions.mpr (Or.inl there)⟩
  · rintro ⟨deep, t, there⟩
    rcases positions.mp there with old | ⟨-, rfl, -⟩
    · exact Or.inr ⟨deep, t, old⟩
    · exact Or.inl rfl

/-- The descent of `map_4k` makes the tables the specification makes, and runs out of frames
where the specification does. -/
theorem ensurePath_reachTables [CountedFrameAlloc A] {rest : List (Fin entryCount)}
    {user : Bool} {pool : FramePool} (inv : TreesInv live s)
    (table : HasTable live s.toMachine a path parent) (admitted : LowerPath 3 (path ++ rest))
    (listing : TablesAt live s.toMachine a tables) (counts : Counts s.ptAlloc pool) :
    DescentAgrees live a ((ensurePath user parent rest).exec s)
      (reachTables path rest tables pool) := by
  induction rest generalizing s path parent tables pool with
  | nil => exact ⟨rfl, listing, counts⟩
  | cons i rest inductionHypothesis =>
      have step : LowerPath 3 (path ++ [i]) :=
        (lowerLayout live s.asSlots).admits_initial ⟨rest, by simp⟩ admitted
      have further : LowerPath 3 ((path ++ [i]) ++ rest) := by simpa using admitted
      have listed := listing.present_iff table step
      rw [ensurePath, MmuM.exec_bind, ensureTable_exec, reachTables]
      by_cases isPresent : present (readEntry s.mem parent i) = true
      · rw [if_pos isPresent, if_pos (listed.mpr isPresent)]
        exact inductionHypothesis inv
          (table.child step (nextTable_eq_some.mpr ⟨isPresent, rfl⟩)) further listing counts
      · rw [if_neg isPresent, if_neg (mt listed.mp isPresent)]
        have absent : present (readEntry s.mem parent i) = false := by simpa using isPresent
        rcases alloc : allocFrame4k s.ptAlloc s.mem with ⟨_ | f, al, m⟩
        · obtain ⟨empty, counts'⟩ := CountedFrameAlloc.refused inv.valid counts alloc
          obtain ⟨-, rfl, -⟩ := alloc_none inv.valid alloc
          rw [empty]
          exact ⟨rfl, listing, counts'⟩
        · obtain ⟨pool', taken, counts'⟩ := CountedFrameAlloc.served inv.valid counts alloc
          obtain ⟨ext, child⟩ : Extends live a user s _ ∧ _ :=
            link_extends inv table step absent alloc
          rw [taken]
          exact inductionHypothesis ext.inv child further
            (listing.link inv table step absent alloc) counts'

end

/-! ### The relation -/

/-- The slot is in use for a space with these pages and tables. -/
structure SpaceAbstracts (k : Machine) (a : Fin maxAddressSpaces) (space : SpaceSpec) :
    Prop where
  used : Used k a
  pages : Represents space.pages k (k.rootOf a)
  tables : TablesAt (Used k) k a space.tables

/-- The slot holds what the specification says. -/
def SlotAbstracts (k : Machine) (a : Fin maxAddressSpaces) : Option SpaceSpec → Prop
  | none => ¬ Used k a
  | some space => SpaceAbstracts k a space

structure Abstracts [PageTableFrameAlloc A] [LawfulFrameAlloc A] [CountedFrameAlloc A]
    (s : Sys A) (spec : VmSpec) : Prop where
  pool : Counts s.ptAlloc spec.pool
  slots : ∀ a, SlotAbstracts s.toMachine a (spec.spaces a)

section

variable {k k' : Machine} {a : Fin maxAddressSpaces} {space : SpaceSpec}

/-- What the tables of a space hold shows in nothing else. -/
theorem SpaceAbstracts.kept {live : Fin maxAddressSpaces → Prop}
    (abstracts : SpaceAbstracts k a space) (keeps : Keeps live k k') (alive : live a)
    (used : Used k' a) (nxe : k'.nxeEnabled = k.nxeEnabled) : SpaceAbstracts k' a space where
  used := used
  pages :=
    { leaves := fun lower => by
        rw [leafAt, keeps.leafEntry_eq alive lower, nxe]
        exact abstracts.pages.leaves lower
      frames := abstracts.pages.frames }
  tables path := by
    rw [abstracts.tables path]
    apply and_congr_right
    intro _
    apply exists_congr
    intro t
    constructor
    · intro table
      exact (keeps.hasTable_iff.mpr (table.of_live alive)).of_live used
    · intro table
      exact (keeps.hasTable_iff.mp (table.of_live alive)).of_live abstracts.used

end

section

variable [PageTableFrameAlloc A] [LawfulFrameAlloc A] [CountedFrameAlloc A]
variable {s s' : Sys A} {spec : VmSpec} {a : Fin maxAddressSpaces} {call : Call}

/-- A slot the call is not about. -/
theorem Abstracts.other (abstracts : Abstracts s spec) (ends : StepEnds call s s')
    (apart : ¬ call.On (.slot a)) (used : Used s'.toMachine a ↔ Used s.toMachine a) :
    SlotAbstracts s'.toMachine a (spec.spaces a) := by
  have slot := abstracts.slots a
  cases known : spec.spaces a with
  | none =>
      rw [known] at slot
      exact mt used.mp slot
  | some space =>
      rw [known] at slot
      have slot : SpaceAbstracts s.toMachine a space := slot
      exact slot.kept ends.keeps ⟨slot.used, apart⟩ (used.mpr slot.used) ends.nxe

/-- A call that is about one slot. -/
theorem Abstracts.update {pool : FramePool} {space : Option SpaceSpec}
    (abstracts : Abstracts s spec) (ends : StepEnds call s s')
    (apart : ∀ b, b ≠ a → ¬ call.On (.slot b))
    (used : ∀ b, b ≠ a → (Used s'.toMachine b ↔ Used s.toMachine b))
    (counts : Counts s'.ptAlloc pool) (slot : SlotAbstracts s'.toMachine a space) :
    Abstracts s' (VmSpec.setSpace { spec with pool := pool } a space) where
  pool := counts
  slots b := by
    change SlotAbstracts s'.toMachine b (Function.update spec.spaces a space b)
    rw [Function.update_apply]
    by_cases same : b = a
    · rw [if_pos same, same]
      exact slot
    · rw [if_neg same]
      exact abstracts.other ends (apart b same) (used b same)

theorem Abstracts.space {space : SpaceSpec} (abstracts : Abstracts s spec)
    (known : spec.spaces a = some space) : SpaceAbstracts s.toMachine a space := by
  have slot := abstracts.slots a
  rw [known] at slot
  exact slot

/-- The space a used slot stands for. -/
theorem Abstracts.exists_space (abstracts : Abstracts s spec) (used : Used s.toMachine a) :
    ∃ space, spec.spaces a = some space := by
  have slot := abstracts.slots a
  cases known : spec.spaces a with
  | none =>
      rw [known] at slot
      exact absurd used slot
  | some space => exact ⟨space, rfl⟩

/-! ### Destruction -/

theorem counts_freeAll (frames : List PhysAddr) {al : A} {pool : FramePool}
    (counts : Counts al pool) :
    Counts (frames.foldl freeFrame4k al) (pool.giveAll frames.length) := by
  induction frames generalizing al pool with
  | nil => exact counts
  | cons f frames inductionHypothesis =>
      exact inductionHypothesis (CountedFrameAlloc.returned counts)

omit [PageTableFrameAlloc A] [LawfulFrameAlloc A] [CountedFrameAlloc A] in
/-- A space gives back its root and its tables. -/
theorem SpaceAbstracts.length_destroyedFrames {k : Machine} {space : SpaceSpec}
    (abstracts : SpaceAbstracts k a space) (trees : Trees (Used k) k) :
    (destroyedFrames k.mem (k.rootOf a)).length = space.frames := by
  have there : ∀ path, path ∈ insert [] space.tables ↔ ∃ t, HasTable (Used k) k a path t := by
    intro path
    rw [Finset.mem_insert, abstracts.tables path]
    by_cases root : path = []
    · exact iff_of_true (Or.inl root) ⟨_, root ▸ Layout.At.root abstracts.used⟩
    · simp [root]
  -- each position has one table, and no table has two positions
  let tableAt path := (walk (nextTable k.mem) (k.rootOf a) path).getD 0
  have tableAt_eq : ∀ {path t}, HasTable (Used k) k a path t → tableAt path = t := by
    intro path t table
    have reached : walk (nextTable k.mem) (k.rootOf a) path = some t := table.reached
    simp [tableAt, reached]
  have image : (insert [] space.tables).image tableAt =
      (destroyedFrames k.mem (k.rootOf a)).toFinset := by
    ext t
    rw [Finset.mem_image, List.mem_toFinset, trees.mem_destroyedFrames abstracts.used]
    constructor
    · rintro ⟨path, member, rfl⟩
      obtain ⟨t, table⟩ := (there path).mp member
      exact ⟨path, (tableAt_eq table).symm ▸ table⟩
    · rintro ⟨path, table⟩
      exact ⟨path, (there path).mpr ⟨t, table⟩, tableAt_eq table⟩
  have injective : Set.InjOn tableAt (insert [] space.tables : Finset _) := by
    intro one inOne two inTwo same
    obtain ⟨t, table⟩ := (there one).mp inOne
    obtain ⟨t', table'⟩ := (there two).mp inTwo
    rw [tableAt_eq table, tableAt_eq table'] at same
    exact (trees.forest table (same ▸ table')).2
  have rootless : [] ∉ space.tables := fun member => ((abstracts.tables []).mp member).1 rfl
  calc (destroyedFrames k.mem (k.rootOf a)).length
      = (destroyedFrames k.mem (k.rootOf a)).toFinset.card :=
        (List.toFinset_card_of_nodup (trees.destroyedFrames_nodup abstracts.used)).symm
    _ = (insert [] space.tables).card := by
        rw [← image, Finset.card_image_of_injOn injective]
    _ = space.frames := Finset.card_insert_of_notMem rootless

theorem Abstracts.destroy {space : SpaceSpec} (abstracts : Abstracts s spec) (inv : RunInv s)
    (known : spec.spaces a = some space) :
    Abstracts (addressSpaceDestroy (.slot a) s) (spec.destroy a space).2 := by
  have used := (abstracts.space known).used
  have destroys := addressSpaceDestroy_spec inv.trees inv.handles used used
  have ends := destroys.stepEnds inv
  refine abstracts.update ends (fun b other on => ?_) (fun b other => ?_) ?_ ?_
  · exact other (AddressSpace.slot.inj on).symm
  · rw [destroys.used]
    exact and_iff_left other
  · rw [destroys.freed, ← (abstracts.space known).length_destroyedFrames inv.trees.toTrees]
    exact counts_freeAll _ abstracts.pool
  · change ¬ Used _ a
    rw [destroys.used]
    exact fun both => both.2 rfl

/-! ### Creation -/

omit [LawfulFrameAlloc A] [CountedFrameAlloc A] in
/-- `address_space_new` takes the first slot that is not in use. -/
theorem newFromKernel_first (root : PhysAddr) (s : Sys A) :
    (newFromKernel root).exec s =
      match allocFrame4k s.ptAlloc s.mem with
      | (none, al, m) => (.error .outOfMemory, { s with ptAlloc := al, mem := m })
      | (some f, al, m) =>
          match (List.finRange maxAddressSpaces).find? fun i => !(s.asSlots i).used with
          | none =>
              (.error .outOfMemory, { s with ptAlloc := al, mem := newRootMem m root f })
          | some i =>
              (.ok (.slot i),
                { s with
                  ptAlloc := al
                  mem := newRootMem m root f
                  asSlots := Function.update s.asSlots i (newSlot i f) }) := by
  rw [newFromKernel, MmuM.exec_bind, requestFrame_exec]
  rcases allocFrame4k s.ptAlloc s.mem with ⟨_ | f, al, m⟩
  · rfl
  · simp only [MmuM.exec_modify_bind]
    rw [allocSlot, MmuM.exec_get_bind]
    dsimp only
    cases (List.finRange maxAddressSpaces).find? fun i => !(s.asSlots i).used <;> rfl

/-- The free slots are those without a space. -/
theorem Abstracts.isNone_eq (abstracts : Abstracts s spec) :
    (fun i => (spec.spaces i).isNone) = fun i => !(s.asSlots i).used := by
  funext i
  have slot := abstracts.slots i
  cases known : spec.spaces i with
  | none =>
      rw [known] at slot
      have unused : (s.asSlots i).used = false := Bool.eq_false_of_not_eq_true slot
      simp [unused]
  | some space =>
      have used : (s.asSlots i).used = true := (abstracts.space known).used
      simp [used]

omit [PageTableFrameAlloc A] [LawfulFrameAlloc A] [CountedFrameAlloc A] in
/-- A space whose lower half is empty. -/
theorem spaceAbstracts_empty {k : Machine} (used : Used k a)
    (empty : ∀ j < kernelPml4Start, readEntry k.mem (k.rootOf a) j = 0) :
    SpaceAbstracts k a .empty where
  used := used
  pages := represents_empty empty
  tables path := by
    refine iff_of_false (Finset.notMem_empty path) ?_
    rintro ⟨deep, t, table⟩
    cases path with
    | nil => exact deep rfl
    | cons j rest =>
        have low : j < kernelPml4Start := table.admitted.2 j rfl
        have absent : nextTable k.mem (k.rootOf a) j = none := by
          rw [nextTable_eq_none, empty j low, present_zero]
        have reached : walk (nextTable k.mem) (k.rootOf a) (j :: rest) = some t := table.reached
        rw [walk_cons, absent, Option.bind_none] at reached
        cases reached

/-- A call after which every slot is as it was. -/
theorem Abstracts.keepSlots {cpu : Cpu} {pool : FramePool} (abstracts : Abstracts s spec)
    (ends : StepEnds (.new cpu) s s') (slots : s'.asSlots = s.asSlots)
    (counts : Counts s'.ptAlloc pool) : Abstracts s' { spec with pool := pool } where
  pool := counts
  slots _ := abstracts.other ends id (by rw [used_congr slots])

theorem Abstracts.new {root : PhysAddr} (cpu : Cpu) (abstracts : Abstracts s spec)
    (inv : RunInv s) (kernel : KernelAt root s.toMachine) :
    spec.new.1 = .handle ((addressSpaceNew cpu).exec s).1 ∧
      Abstracts ((addressSpaceNew cpu).exec s).2 spec.new.2 := by
  have created := addressSpaceNew_adopted cpu kernel.1 kernel.2
  rw [newFromKernel_first] at created
  have newEnds := addressSpaceNew_spec cpu inv.trees fun {b} inUse => inUse
  have step : StepEnds (.new cpu) s ((addressSpaceNew cpu).exec s).2 :=
    lowerCall_step inv (trivial : LowerCall s.toMachine (.new cpu)) rfl
  rw [VmSpec.new, abstracts.isNone_eq]
  rcases alloc : allocFrame4k s.ptAlloc s.mem with ⟨_ | f, al, m⟩
  · rw [alloc] at created
    obtain ⟨empty, counts⟩ := CountedFrameAlloc.refused inv.trees.valid abstracts.pool alloc
    rw [empty]
    rw [created] at step ⊢
    exact ⟨rfl, abstracts.keepSlots step rfl counts⟩
  · rw [alloc] at created
    obtain ⟨pool, taken, counts⟩ := CountedFrameAlloc.served inv.trees.valid abstracts.pool alloc
    rw [taken]
    cases found : (List.finRange maxAddressSpaces).find? fun i => !(s.asSlots i).used with
    | none =>
        rw [found] at created
        rw [created] at step ⊢
        exact ⟨rfl, abstracts.keepSlots step rfl (CountedFrameAlloc.dropped counts)⟩
    | some i =>
        rw [found] at created
        dsimp only at created
        rw [created] at step newEnds ⊢
        refine ⟨rfl, abstracts.update step (fun b _ => id) (fun b other => ?_) counts ?_⟩
        · have same := congrArg AddressSpaceSlot.used
            (Function.update_of_ne other (newSlot i f) s.asSlots)
          exact Bool.eq_iff_iff.mp same
        · cases newEnds with
          | ok free inv' keeps fresh heldMono empty slots =>
              apply spaceAbstracts_empty
              · rw [used_newSlot slots]
                exact Or.inr rfl
              · rw [Machine.rootOf, slots, Function.update_self]
                exact empty

/-! ### Mapping -/

omit [PageTableFrameAlloc A] [LawfulFrameAlloc A] [CountedFrameAlloc A] in
/-- Writing a leaf moves no table. -/
theorem TablesAt.write {live : Fin maxAddressSpaces → Prop} {v : VirtAddr} {e : Word}
    {tables : Finset (List (Fin entryCount))} (listing : TablesAt live s.toMachine a tables)
    (trees : Trees live s.toMachine) (writes : WritesLeaf live a v e s s') :
    TablesAt live s'.toMachine a tables := by
  intro path
  rw [listing path]
  simp only [writes.write.hasTable_iff trees]

/-- A call on one space that leaves the slots as they are. -/
theorem Abstracts.change {pages : PageMap} {tables : Finset (List (Fin entryCount))}
    {pool : FramePool} (abstracts : Abstracts s spec) (step : StepEnds call s s')
    (on : call.On (.slot a)) (used : Used s.toMachine a) (slots : s'.asSlots = s.asSlots)
    (counts : Counts s'.ptAlloc pool) (related : Represents pages s'.toMachine (s'.rootOf a))
    (listing : TablesAt (Used s.toMachine) s'.toMachine a tables) :
    Abstracts s' (VmSpec.setSpace { spec with pool := pool } a (some ⟨pages, tables⟩)) := by
  have same : Used s'.toMachine = Used s.toMachine := used_congr slots
  refine abstracts.update step (fun b other on' => ?_) (fun b _ => by rw [same]) counts ?_
  · cases call <;> simp_all [Call.On]
  · exact ⟨same ▸ used, related, same ▸ listing⟩

omit [LawfulFrameAlloc A] [CountedFrameAlloc A] in
/-- `map_4k` on aligned addresses, once the tables are there or a frame is missing. -/
theorem map4k_aligned {v : VirtAddr} {p : PhysAddr} (flags : MapFlags) (lower : LowerHalf v)
    (aligned : ¬ (!aligned4k v || !aligned4k p) = true) (aspace : AddressSpace) (s : Sys A) :
    (map4k aspace v p flags).exec s =
      match (ensurePath (flags.contains .user) (s.asX86 aspace).pml4Phys
        (tablePath v)).exec s with
      | (.error e, s') => (.error e, s')
      | (.ok pt, s') => mapLeaf v p flags pt s' := by
  rw [map4k_exec, if_neg aligned, lower.canonical]
  rfl

omit [CountedFrameAlloc A] in
/-- The end of `map_4k`: the leaf entry is written, unless it is present. -/
theorem mapLeaf_mapPage {space : SpaceSpec} {v : VirtAddr} {pt : PhysAddr} {user : Bool}
    {tables : Finset (List (Fin entryCount))} (here : SpaceAbstracts s.toMachine a space)
    (lower : LowerHalf v) (ext : Extends (Used s.toMachine) a user s s')
    (pointed : HasTable (Used s.toMachine) s'.toMachine a (tablePath v) pt)
    (listing : TablesAt (Used s.toMachine) s'.toMachine a tables) (p : PhysAddr)
    (flags : MapFlags) :
    ∃ s'', mapLeaf v p flags pt s' = ((space.mapPage v p flags).map fun _ => ⟨⟩, s'') ∧
      s''.ptAlloc = s'.ptAlloc ∧ s''.asSlots = s.asSlots ∧
      Represents ((space.mapPage v p flags).toOption.getD space.pages) s''.toMachine
        (s''.rootOf a) ∧
      TablesAt (Used s.toMachine) s''.toMachine a tables := by
  have related := ext.represents here.used here.pages
  have found := leafAt_eq_of_walk ((walkToPt_eq_some here.used lower).mpr pointed)
  rw [related.leaves lower] at found
  rw [mapLeaf, SpaceSpec.mapPage]
  by_cases isPresent : present (readEntry s'.mem pt (ptIndex v)) = true
  · rw [if_pos isPresent] at found ⊢
    obtain ⟨item, taken, -⟩ := Option.map_eq_some_iff.mp found
    rw [taken]
    exact ⟨s', rfl, rfl, ext.asSlots, related, listing⟩
  · rw [if_neg isPresent] at found ⊢
    rw [Option.map_eq_none_iff.mp found]
    have writes := writesLeaf_of_table pointed (leafWord s'.nxeEnabled p flags)
    refine ⟨_, rfl, rfl, ext.asSlots, ?_, listing.write ext.inv.toTrees writes⟩
    refine writes.represents ext.inv.toTrees here.used lower related ?_ ?_
    · rw [Option.filter_some, present_leafWord]
      simp [leafOf, leafWord, BitVec.and_assoc]
    · rintro item ⟨⟩
      exact isFrame_and_addrMask p

theorem Abstracts.map {space : SpaceSpec} {v : VirtAddr} (abstracts : Abstracts s spec)
    (inv : RunInv s) (known : spec.spaces a = some space) (lower : LowerHalf v)
    (p : PhysAddr) (flags : MapFlags) :
    (spec.map a space v p flags).1 =
        .handle (((map4k (.slot a) v p flags).exec s).1.map fun _ => .slot a) ∧
      Abstracts ((map4k (.slot a) v p flags).exec s).2 (spec.map a space v p flags).2 := by
  have here := abstracts.space known
  have step : StepEnds (.map (.slot a) v p flags) s ((map4k (.slot a) v p flags).exec s).2 :=
    lowerCall_step inv
      (⟨a, rfl, here.used, lower⟩ : LowerCall s.toMachine (.map (.slot a) v p flags)) rfl
  rw [VmSpec.map]
  by_cases bad : (!aligned4k v || !aligned4k p) = true
  · rw [map4k_exec, if_pos bad, if_pos bad]
    exact ⟨rfl, abstracts⟩
  · rw [if_neg bad]
    have mapped := map4k_aligned flags lower bad (.slot a) s
    have table : HasTable (Used s.toMachine) s.toMachine a [] (s.asX86 (.slot a)).pml4Phys :=
      Layout.At.root here.used
    have descends : Descends (Used s.toMachine) a (flags.contains .user) s ([] ++ tablePath v)
        ((ensurePath (flags.contains .user) (s.asX86 (.slot a)).pml4Phys (tablePath v)).exec s) :=
      ensurePath_spec inv.trees table lower.tablePath
    have agrees : DescentAgrees (Used s.toMachine) a
        ((ensurePath (flags.contains .user) (s.asX86 (.slot a)).pml4Phys (tablePath v)).exec s) _ :=
      ensurePath_reachTables inv.trees table lower.tablePath here.tables abstracts.pool
    generalize (ensurePath _ _ (tablePath v)).exec s = outcome at descends agrees mapped
    generalize reachTables [] (tablePath v) space.tables spec.pool = answer at agrees ⊢
    obtain ⟨reached, tables, pool⟩ := answer
    obtain ⟨isReached, listing, counts⟩ := agrees
    obtain ⟨e | pt, s₁⟩ := outcome
    · obtain ⟨ext, rfl, missing⟩ := descends
      obtain rfl : reached = false := isReached
      rw [mapped] at step ⊢
      exact ⟨rfl, abstracts.change step rfl here.used ext.asSlots counts
        (ext.represents here.used here.pages) listing⟩
    · obtain ⟨ext, pointed⟩ := descends
      obtain rfl : reached = true := isReached
      obtain ⟨s₂, written, alloc, slots, related, listing'⟩ :=
        mapLeaf_mapPage here lower ext pointed listing p flags
      dsimp only at mapped
      rw [mapped, written] at step ⊢
      refine ⟨?_, abstracts.change step rfl here.used slots (alloc ▸ counts) related listing'⟩
      dsimp only
      cases space.mapPage v p flags <;> rfl

/-! ### Calls without allocations -/

omit [PageTableFrameAlloc A] [LawfulFrameAlloc A] [CountedFrameAlloc A] in
/-- What a call that replaces a leaf leaves alone. -/
theorem ReplaceEnds.kept {live : Fin maxAddressSpaces → Prop} {v : VirtAddr}
    {update : Bool → Word → Word} {r : Except MapError PUnit}
    {tables : Finset (List (Fin entryCount))} (ends : ReplaceEnds live a v update s (r, s'))
    (trees : Trees live s.toMachine) (listing : TablesAt live s.toMachine a tables) :
    s'.ptAlloc = s.ptAlloc ∧ s'.asSlots = s.asSlots ∧ TablesAt live s'.toMachine a tables := by
  cases ends with
  | unaligned | notMapped => exact ⟨rfl, rfl, listing⟩
  | ok aligned mapped writes =>
      exact ⟨by rw [writes.rest], writes.write.asSlots, listing.write trees writes⟩

theorem Abstracts.replace {space : SpaceSpec} {v : VirtAddr} {update : Bool → Word → Word}
    {r : Except MapError PUnit} {pages : PageMap} {op : PageOp} (abstracts : Abstracts s spec)
    (inv : RunInv s) (known : spec.spaces a = some space) (step : StepEnds call s s')
    (on : call.On (.slot a)) (ends : ReplaceEnds (Used s.toMachine) a v update s (r, s'))
    (stepped : space.pages.step false op = (.updated r, pages))
    (related : Represents pages s'.toMachine (s'.rootOf a)) :
    (spec.onPages a space op).1 = .handle (r.map fun _ => .slot a) ∧
      Abstracts s' (spec.onPages a space op).2 := by
  have here := abstracts.space known
  obtain ⟨alloc, slots, listing⟩ := ends.kept inv.trees.toTrees here.tables
  rw [VmSpec.onPages, stepped]
  exact ⟨rfl, abstracts.change step on here.used slots (alloc ▸ abstracts.pool) related listing⟩

theorem Abstracts.unmap {space : SpaceSpec} {v : VirtAddr} (abstracts : Abstracts s spec)
    (inv : RunInv s) (known : spec.spaces a = some space) (lower : LowerHalf v) :
    (spec.onPages a space (.unmap v)).1 =
        .handle (((unmap4k (.slot a) v).exec s).1.map fun _ => .slot a) ∧
      Abstracts ((unmap4k (.slot a) v).exec s).2 (spec.onPages a space (.unmap v)).2 := by
  have here := abstracts.space known
  have ends := unmap4k_lower (s := s) here.used lower
  have step : StepEnds (.unmap (.slot a) v) s ((unmap4k (.slot a) v).exec s).2 :=
    lowerCall_step inv
      (⟨a, rfl, here.used, lower⟩ : LowerCall s.toMachine (.unmap (.slot a) v)) rfl
  generalize (unmap4k (.slot a) v).exec s = outcome at ends step ⊢
  obtain ⟨r, s'⟩ := outcome
  obtain ⟨pages, stepped, related⟩ :=
    ends.represents_unmap inv.trees.toTrees here.used lower here.pages false
  exact abstracts.replace inv known step rfl ends stepped related

theorem Abstracts.protect {space : SpaceSpec} {v : VirtAddr} (abstracts : Abstracts s spec)
    (inv : RunInv s) (known : spec.spaces a = some space) (lower : LowerHalf v)
    (flags : MapFlags) :
    (spec.onPages a space (.protect v flags)).1 =
        .handle (((protect4k (.slot a) v flags).exec s).1.map fun _ => .slot a) ∧
      Abstracts ((protect4k (.slot a) v flags).exec s).2
        (spec.onPages a space (.protect v flags)).2 := by
  have here := abstracts.space known
  have ends := protect4k_lower (s := s) here.used lower flags
  have step : StepEnds (.protect (.slot a) v flags) s ((protect4k (.slot a) v flags).exec s).2 :=
    lowerCall_step inv
      (⟨a, rfl, here.used, lower⟩ : LowerCall s.toMachine (.protect (.slot a) v flags)) rfl
  generalize (protect4k (.slot a) v flags).exec s = outcome at ends step ⊢
  obtain ⟨r, s'⟩ := outcome
  obtain ⟨pages, stepped, related⟩ :=
    ends.represents_protect inv.trees.toTrees here.used lower here.pages false
  exact abstracts.replace inv known step rfl ends stepped related

theorem VmSpec.setSpace_known {space : SpaceSpec} (known : spec.spaces a = some space) :
    spec.setSpace a (some space) = spec := by
  rw [VmSpec.setSpace, ← known, Function.update_eq_self]

theorem Abstracts.translate {space : SpaceSpec} {v : VirtAddr} (abstracts : Abstracts s spec)
    (known : spec.spaces a = some space) (lower : LowerHalf v) :
    spec.onPages a space (.translate v) =
      (.address (RincOs.translate s.toMachine (.slot a) v), spec) := by
  have here := abstracts.space known
  rw [here.pages.translate_eq (.slot a) lower, VmSpec.onPages, PageMap.step]
  cases space.pages (pageOf v) with
  | none => exact Prod.ext rfl (VmSpec.setSpace_known known)
  | some item => exact Prod.ext rfl (VmSpec.setSpace_known known)

/-! ### Whole runs -/

/-- Every call of the service is a step of the specification, with the same answer. -/
theorem vmCall_refines {root : PhysAddr} {call : VmCall} (abstracts : Abstracts s spec)
    (settled : KernelSettled root s) (may : call.Allowed s.toMachine) :
    (spec.step call).1 = (call.exec s).1 ∧ Abstracts (call.exec s).2 (spec.step call).2 := by
  have inv := settled.inv
  have target : ∀ aspace, call.target = some aspace →
      ∃ a space, aspace = .slot a ∧ spec.spaces a = some space := by
    intro aspace on
    obtain ⟨a, same, used⟩ := may.target aspace on
    obtain ⟨space, known⟩ := abstracts.exists_space used
    exact ⟨a, space, same, known⟩
  cases call with
  | newAddressSpace cpu => exact abstracts.new cpu inv settled.kernel
  | destroyAddressSpace aspace =>
      obtain ⟨a, space, rfl, known⟩ := target aspace rfl
      rw [VmSpec.step, VmSpec.onSpace, known]
      exact ⟨rfl, abstracts.destroy inv known⟩
  | map4k aspace v p flags =>
      obtain ⟨a, space, rfl, known⟩ := target aspace rfl
      rw [VmSpec.step, VmSpec.onSpace, known]
      exact abstracts.map inv known may.lower p flags
  | unmap4k aspace v =>
      obtain ⟨a, space, rfl, known⟩ := target aspace rfl
      rw [VmSpec.step, VmSpec.onSpace, known]
      exact abstracts.unmap inv known may.lower
  | protect4k aspace v flags =>
      obtain ⟨a, space, rfl, known⟩ := target aspace rfl
      rw [VmSpec.step, VmSpec.onSpace, known]
      exact abstracts.protect inv known may.lower flags
  | translate aspace v =>
      obtain ⟨a, space, rfl, known⟩ := target aspace rfl
      rw [VmSpec.step, VmSpec.onSpace, known]
      dsimp only
      rw [abstracts.translate known may.lower]
      exact ⟨rfl, abstracts⟩

omit [PageTableFrameAlloc A] [LawfulFrameAlloc A] [CountedFrameAlloc A] in
theorem SlotAbstracts.withTlb {k : Machine} {slot : Option SpaceSpec}
    (abstracts : SlotAbstracts k a slot) (ops : List TlbOp) :
    SlotAbstracts { k with tlbOps := ops } a slot := by
  cases slot with
  | none => exact abstracts
  | some space =>
      obtain ⟨used, pages, tables⟩ := abstracts
      exact ⟨used, ⟨pages.leaves, pages.frames⟩, tables⟩

theorem Abstracts.withTlb (abstracts : Abstracts s spec) (ops : List TlbOp) :
    Abstracts { s with tlbOps := ops } spec :=
  ⟨abstracts.pool, fun a => (abstracts.slots a).withTlb ops⟩

end

/-- The calls of a serial history with their answers. -/
def answersOf (history : List (SerialEvent C)) : List (VmCall × VmResult) :=
  history.map fun event => (event.call, event.result)

theorem serialRun_abstracts [PageTableFrameAlloc A] [LawfulFrameAlloc A] [CountedFrameAlloc A]
    [DecidableEq C] {root : PhysAddr} {start t : Shared C A} {spec : VmSpec}
    {history : List (SerialEvent C)} (settled : KernelSettled root start.sys)
    (abstracts : Abstracts start.sys spec) (serial : SerialRun start history t) :
    KernelSettled root t.sys ∧ spec.Prescribes (answersOf history) ∧
      Abstracts t.sys (spec.after (answersOf history)) := by
  induction serial with
  | start => exact ⟨settled, trivial, abstracts⟩
  | @call history t _ c call may inductionHypothesis =>
      obtain ⟨settled', prescribes, abstracts'⟩ := inductionHypothesis
      have effect := serial_effect c settled' may
      have viewed : Abstracts (t.view c) (spec.after (answersOf history)) :=
        abstracts'.withTlb _
      have allowed : call.Allowed (t.view c).toMachine := ⟨may.target, may.lower⟩
      obtain ⟨answer, after⟩ := vmCall_refines viewed (settled'.withTlb _) allowed
      exact ⟨effect.settled, ⟨prescribes, answer⟩, after.withTlb _⟩

section

variable {map : BootMap}

/-- Before the first call all pages of the memory map are there. -/
theorem FreshStart.abstracts {start : Sys (BootAllocOver map)} (fresh : FreshStart map start) :
    Abstracts start (.boot map.pages.length) := by
  obtain ⟨boot, created, count⟩ := fresh.alloc
  obtain ⟨-, -, empty, all⟩ := bootPtAlloc_new created count
  refine ⟨⟨?_, ?_⟩, fresh.slots⟩
  · rw [empty]
    rfl
  · rw [all]
    rfl

variable [DecidableEq C] {root : PhysAddr} {start t : Shared C (BootAllocOver map)}

/-- The VM service on the boot allocator does what the specification says, call by call and
with every answer, `OutOfMemory` included.  The specification starts with the number of pages
in the memory map. -/
theorem serialVm_refines {history : List (SerialEvent C)} (fresh : FreshStart map start.sys)
    (kernel : KernelAt root start.sys.toMachine) (rootFrame : IsFrame root)
    (reserved : root ∉ map.pages) (serial : SerialRun start history t) :
    (VmSpec.boot map.pages.length).Prescribes (answersOf history) ∧
      Abstracts t.sys ((VmSpec.boot map.pages.length).after (answersOf history)) :=
  (serialRun_abstracts (fresh.kernelSettled kernel rootFrame reserved) fresh.abstracts serial).2

/-- The same for calls that interleave on several CPUs: in the order in which they were
entered, they have the answers of the specification. -/
theorem concurrentVm_refines {st : VmState C (BootAllocOver map)}
    (fresh : FreshStart map start.sys) (kernel : KernelAt root start.sys.toMachine)
    (rootFrame : IsFrame root) (reserved : root ∉ map.pages)
    (run : VmRun (.initial start) st) :
    ∃ history : List (SerialEvent C),
      List.Forall₂ CallRecord.Answered st.log history ∧
      (VmSpec.boot map.pages.length).Prescribes (answersOf history) ∧
      ((∀ c, st.running c = none) →
        Abstracts st.shared.sys
          ((VmSpec.boot map.pages.length).after (answersOf history))) := by
  have settled := fresh.kernelSettled kernel rootFrame reserved
  obtain ⟨history, final, footprints, inv⟩ := serialized_of_run settled run
  obtain ⟨-, prescribes, abstracts⟩ := serialRun_abstracts settled fresh.abstracts inv.serial
  refine ⟨history, inv.answers.imp fun _ _ => Predicted.toAnswered, prescribes, fun idle => ?_⟩
  obtain rfl : final = st.shared :=
    inv.completes.eq cells_injective fun c => by simp [VmState.pool, idle c]
  exact abstracts

end

/-! ### On the small machine -/

/-- A space is created and a page mapped in it. -/
theorem serialVm_refines_tinyShared :
    ∃ (history : List (SerialEvent Bool)) (t : Shared Bool (BootAllocOver tinyMap)),
      SerialRun tinyShared history t ∧
      history.map (fun event => event.call) =
        [.map4k (.slot 0) 0x400000 0x7000 .user, .newAddressSpace bootCpu] ∧
      (VmSpec.boot tinyMap.pages.length).Prescribes (answersOf history) ∧
      Abstracts t.sys ((VmSpec.boot tinyMap.pages.length).after (answersOf history)) := by
  have created : SerialRun tinyShared _ _ :=
    SerialRun.start.call false (.newAddressSpace bootCpu) ⟨nofun, trivial⟩
  have used : Used (tinyShared.put false
      ((VmCall.newAddressSpace bootCpu).exec (tinyShared.view false)).2).sys.toMachine 0 := by
    decide +kernel
  have mapped := created.call false (.map4k (.slot 0) 0x400000 0x7000 .user)
    ⟨fun _ known => ⟨0, (Option.some.inj known).symm, used⟩,
      (by decide : LowerHalf 0x400000)⟩
  exact ⟨_, _, mapped, rfl, serialVm_refines freshStart_tinyShared ⟨rfl, rfl⟩ (by decide)
    (by decide) mapped⟩

/-- A look-up is entered, then a page is mapped on another CPU, and then the look-up goes on to
its end. -/
theorem concurrentVm_refines_twoCpus :
    ∃ mid st : VmState Bool (BootAllocOver tinyMap), VmRun (.initial tinyShared) mid ∧
      (∀ c, mid.running c ≠ none) ∧ VmRun mid st ∧ (∀ c, st.running c = none) ∧
      ∃ history : List (SerialEvent Bool),
        List.Forall₂ CallRecord.Answered st.log history ∧
        (VmSpec.boot tinyMap.pages.length).Prescribes (answersOf history) ∧
        Abstracts st.shared.sys
          ((VmSpec.boot tinyMap.pages.length).after (answersOf history)) := by
  obtain ⟨mid, run, ⟨translating, look⟩, mapping, change⟩ := twoCpus_underWay
  -- the same steps from the start and from the state in the middle
  have finishes : ∀ {begin : VmState Bool (BootAllocOver tinyMap)}, VmRun begin mid →
      VmRun begin _ := fun early =>
    (early.finish mapping change).finish translating
      ((Function.update_of_ne (by decide) _ _).trans look)
  refine ⟨mid, _, run, fun c => ?_, finishes .refl, fun c => ?_, ?_⟩
  · cases c
    · simp [change]
    · simp [look]
  · cases c <;> simp
  · obtain ⟨history, answered, prescribes, abstracts⟩ :=
      concurrentVm_refines freshStart_tinyShared ⟨rfl, rfl⟩ (by decide) (by decide) (finishes run)
    exact ⟨history, answered, prescribes, abstracts fun c => by cases c <;> simp⟩

end RincOs
