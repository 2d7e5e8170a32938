/-
Module: RincOs.Proofs.LeafEntries
Purpose: The leaf entries of a forest of page tables, and the mapping operations
  in terms of them: creating tables changes no present leaf entry, and writing
  one changes exactly the page it belongs to.
Trusted boundary: none
Main exports:
  leafEntry, leafAt, translate_leafAt, Extends.leafAt_eq, LeafWrite,
  LeafWrite.inv, LeafWrite.leafEntry_eq, map4k_lower, replaceLeaf_lower
-/
import RincOs.Proofs.LowerForest

namespace RincOs

open RadixForest LawfulFrameAlloc

variable {A : Type}

/-- The word in the leaf slot of `v`, if the tables above it exist. -/
def leafEntry (m : Mem) (root : PhysAddr) (v : VirtAddr) : Option Word :=
  (walkToPt m root v).map fun pt => readEntry m pt (ptIndex v)

/-- The leaf entry of `v`, if it is present. -/
def leafAt (m : Mem) (root : PhysAddr) (v : VirtAddr) : Option Word :=
  (leafEntry m root v).filter present

theorem leafAt_eq_of_walk {m : Mem} {root pt : PhysAddr} {v : VirtAddr}
    (walked : walkToPt m root v = some pt) :
    leafAt m root v =
      if present (readEntry m pt (ptIndex v)) then some (readEntry m pt (ptIndex v))
      else none := by
  rw [leafAt, leafEntry, walked, Option.map_some, Option.filter_some]

theorem leafAt_eq_none_of_walk {m : Mem} {root : PhysAddr} {v : VirtAddr}
    (walked : walkToPt m root v = none) : leafAt m root v = none := by
  rw [leafAt, leafEntry, walked, Option.map_none, Option.filter_none]

/-- Below an empty lower half there are no leaf entries. -/
theorem leafAt_empty {m : Mem} {root : PhysAddr} {v : VirtAddr}
    (empty : ∀ j < kernelPml4Start, readEntry m root j = 0) (lower : LowerHalf v) :
    leafAt m root v = none := by
  apply leafAt_eq_none_of_walk
  rw [walkToPt, empty _ lower.pml4Index_lt, present_zero]
  rfl

/-- `translate` reads the leaf entry and nothing else. -/
theorem translate_leafAt (k : Machine) (aspace : AddressSpace) {v : VirtAddr}
    (canonical : isCanonical v = true) :
    translate k aspace v =
      match leafAt k.mem (k.asX86 aspace).pml4Phys v with
      | none => .error .notMapped
      | some e => .ok ((e &&& addrMask) ||| (v &&& 0xfff)) := by
  rw [translate, canonical]
  cases walked : walkToPt k.mem (k.asX86 aspace).pml4Phys v with
  | none =>
      rw [leafAt_eq_none_of_walk walked]
      rfl
  | some pt =>
      rw [leafAt_eq_of_walk walked]
      cases isPresent : present (readEntry k.mem pt (ptIndex v)) <;> simp [isPresent]

theorem translate_congr {k k' : Machine} {aspace : AddressSpace} {v : VirtAddr}
    (canonical : isCanonical v = true)
    (same : leafEntry k'.mem (k'.asX86 aspace).pml4Phys v =
      leafEntry k.mem (k.asX86 aspace).pml4Phys v) :
    translate k' aspace v = translate k aspace v := by
  rw [translate_leafAt k' aspace canonical, translate_leafAt k aspace canonical, leafAt,
    same, leafAt]

section

variable {live : Fin maxAddressSpaces → Prop} {a b : Fin maxAddressSpaces}
variable {k k' : Machine} {v w : VirtAddr} {pt : PhysAddr}

/-- The PML4 of a slot. -/
abbrev Machine.rootOf (k : Machine) (a : Fin maxAddressSpaces) : PhysAddr :=
  (k.asSlots a).space.pml4Phys

/-- In the lower half of a live space, the walk of the backend finds the tables
of the forest. -/
theorem walkToPt_eq_some (alive : live a) (lower : LowerHalf v) :
    walkToPt k.mem (k.rootOf a) v = some pt ↔ HasTable live k a (tablePath v) pt := by
  rw [walkToPt_eq_walk]
  exact ⟨fun reached => ⟨alive, lower.tablePath, reached⟩, fun table => table.reached⟩

theorem walkToPt_eq_none (alive : live a) (lower : LowerHalf v)
    (missing : ∀ t, ¬ HasTable live k a (tablePath v) t) :
    walkToPt k.mem (k.rootOf a) v = none :=
  Option.eq_none_iff_forall_not_mem.mpr fun t found =>
    missing t ((walkToPt_eq_some alive lower).mp found)

/-- A leaf slot is not the slot of a table. -/
theorem not_lowerPath_leaf (v w : VirtAddr) : ¬ LowerPath 3 (tablePath v ++ [ptIndex w]) :=
  fun path => by simpa [tablePath] using path.1

/-- The slots of two lower-half addresses coincide when their pages do. -/
theorem leafSlot_eq_iff (one : LowerHalf v) (two : LowerHalf w) :
    (tablePath v = tablePath w ∧ ptIndex v = ptIndex w) ↔ pageOf v = pageOf w := by
  have lowV : v.toNat < 2 ^ 47 := one
  have lowW : w.toNat < 2 ^ 47 := two
  rw [← samePage_iff (by omega) (by omega)]
  simp [tablePath, and_assoc]

/-- Where no table changed, every leaf slot reads as before. -/
theorem Keeps.leafEntry_eq (keeps : Keeps live k k') (alive : live b)
    (lower : LowerHalf v) :
    leafEntry k'.mem (k'.rootOf b) v = leafEntry k.mem (k.rootOf b) v := by
  rw [leafEntry, leafEntry]
  cases found : walkToPt k.mem (k.rootOf b) v with
  | some pt =>
      have table := (walkToPt_eq_some alive lower).mp found
      have found' : walkToPt k'.mem (k'.rootOf b) v = some pt :=
        (walkToPt_eq_some alive lower).mpr (keeps.hasTable_iff.mpr table)
      rw [found', Option.map_some, Option.map_some, keeps.words table]
  | none =>
      have found' : walkToPt k'.mem (k'.rootOf b) v = none := by
        refine walkToPt_eq_none alive lower fun t table => ?_
        have old := (walkToPt_eq_some alive lower).mpr (keeps.hasTable_iff.mp table)
        rw [old] at found
        cases found
      rw [found']
      rfl

/-! ### Creating tables leaves the leaf entries alone -/

variable [PageTableFrameAlloc A] [LawfulFrameAlloc A]
variable {user : Bool} {s s' : Sys A}

theorem Extends.rootOf (ext : Extends live a user s s') (b : Fin maxAddressSpaces) :
    s'.rootOf b = s.rootOf b := by
  rw [Machine.rootOf, Machine.rootOf, ext.asSlots]

theorem Extends.leafEntry_some (ext : Extends live a user s s') (alive : live b)
    (lower : LowerHalf v) (found : walkToPt s.mem (s.rootOf b) v = some pt) :
    walkToPt s'.mem (s'.rootOf b) v = some pt ∧
      readEntry s'.mem pt (ptIndex v) = readEntry s.mem pt (ptIndex v) := by
  have table := (walkToPt_eq_some alive lower).mp found
  refine ⟨(walkToPt_eq_some alive lower).mpr (ext.positions table), ?_⟩
  rcases ext.words table (ptIndex v) with same | ⟨-, path, -⟩
  · exact same
  · exact absurd path (not_lowerPath_leaf v v)

/-- No present leaf entry of any live space appears, changes or goes away. -/
theorem Extends.leafAt_eq (ext : Extends live a user s s') (alive : live b)
    (lower : LowerHalf v) :
    leafAt s'.mem (s'.rootOf b) v = leafAt s.mem (s.rootOf b) v := by
  cases found : walkToPt s.mem (s.rootOf b) v with
  | some pt =>
      obtain ⟨found', same⟩ := ext.leafEntry_some alive lower found
      rw [leafAt_eq_of_walk found, leafAt_eq_of_walk found', same]
  | none =>
      rw [leafAt_eq_none_of_walk found]
      cases found' : walkToPt s'.mem (s'.rootOf b) v with
      | none => exact leafAt_eq_none_of_walk found'
      | some pt =>
          rcases ext.fresh ((walkToPt_eq_some alive lower).mp found') with
            old | ⟨-, -, -, zero⟩
          · rw [(walkToPt_eq_some alive lower).mpr old] at found
            cases found
          · rcases zero (ptIndex v) with zero | ⟨path, -⟩
            · rw [leafAt_eq_of_walk found', zero, present_zero]
              rfl
            · exact absurd path (not_lowerPath_leaf v v)

end

/-! ### Writing a leaf entry -/

/-- `k'` is `k` after the word `e` was written to slot `i` of a page table. -/
structure LeafWrite (live : Fin maxAddressSpaces → Prop) (a : Fin maxAddressSpaces)
    (path : List (Fin entryCount)) (i : Fin entryCount) (e : Word)
    (k k' : Machine) : Prop where
  deep : path.length = 3
  written : ∃ pt, HasTable live k a path pt ∧ k'.mem = writeEntry k.mem pt i e
  asSlots : k'.asSlots = k.asSlots

namespace LeafWrite

variable {live : Fin maxAddressSpaces → Prop} {a b : Fin maxAddressSpaces}
variable {path rest : List (Fin entryCount)} {i : Fin entryCount} {e : Word}
variable {k k' : Machine} {t : PhysAddr}

/-- The tables of the forest are where they were. -/
theorem hasTable_iff (write : LeafWrite live a path i e k k') (trees : Trees live k) :
    HasTable live k' b rest t ↔ HasTable live k b rest t := by
  obtain ⟨pt, table, mem⟩ := write.written
  have deep := write.deep
  rw [HasTable, mem, write.asSlots]
  apply Layout.at_congr
  intro c other node j position admitted
  apply nextTable_congr
  apply readEntry_writeEntry_ne (trees.isFrame table) (trees.isFrame position)
  left
  rintro rfl
  -- `node` would be the page table itself, whose slots are not table slots
  obtain ⟨-, rfl⟩ := trees.forest position table
  have short := admitted.1
  simp only [List.length_append, List.length_singleton] at short
  omega

theorem read (write : LeafWrite live a path i e k k') (trees : Trees live k)
    (table : HasTable live k b rest t) (j : Fin entryCount) :
    readEntry k'.mem t j =
      if b = a ∧ rest = path ∧ j = i then e else readEntry k.mem t j := by
  obtain ⟨pt, leafTable, mem⟩ := write.written
  rw [mem]
  split
  · rename_i slot
    obtain ⟨rfl, rfl, rfl⟩ := slot
    rw [table.unique leafTable, readEntry_writeEntry_self]
  · rename_i elsewhere
    apply readEntry_writeEntry_ne (trees.isFrame leafTable) (trees.isFrame table)
    by_contra same
    push Not at same
    obtain ⟨rfl, rfl⟩ := same
    obtain ⟨rfl, rfl⟩ := trees.forest table leafTable
    exact elsewhere ⟨rfl, rfl, rfl⟩

/-- The tables of the other spaces are left alone. -/
theorem keeps (write : LeafWrite live a path i e k k') (trees : Trees live k) :
    Keeps (fun b => live b ∧ b ≠ a) k k' where
  roots _ := by rw [write.asSlots]
  words table j := by
    rw [write.read trees (HasTable.mono And.left table), if_neg]
    exact fun slot => table.live.2 slot.1

theorem trees (write : LeafWrite live a path i e k k') (before : Trees live k) :
    Trees live k' where
  roots alive := by
    rw [write.asSlots]
    exact before.roots alive
  forest one two := by
    exact before.forest ((write.hasTable_iff before).mp one)
      ((write.hasTable_iff before).mp two)
  entries {b rest t j} table admitted isPresent := by
    have old := (write.hasTable_iff before).mp table
    have same : readEntry k'.mem t j = readEntry k.mem t j := by
      rw [write.read before old, if_neg]
      rintro ⟨-, rfl, -⟩
      have short := admitted.1
      have deep := write.deep
      simp only [List.length_append, List.length_singleton] at short
      omega
    rw [same] at isPresent ⊢
    exact before.entries old admitted isPresent

/-- Exactly the slots of the written page change. -/
theorem leafEntry_eq {v w : VirtAddr}
    (write : LeafWrite live a (tablePath v) (ptIndex v) e k k') (trees : Trees live k)
    (alive : live b) (lower : LowerHalf v) (lower' : LowerHalf w) :
    leafEntry k'.mem (k'.rootOf b) w =
      if b = a ∧ pageOf w = pageOf v then some e
      else leafEntry k.mem (k.rootOf b) w := by
  have page := leafSlot_eq_iff lower' lower
  rw [leafEntry, leafEntry]
  cases found : walkToPt k.mem (k.rootOf b) w with
  | some t =>
      have table := (walkToPt_eq_some alive lower').mp found
      have found' : walkToPt k'.mem (k'.rootOf b) w = some t :=
        (walkToPt_eq_some alive lower').mpr ((write.hasTable_iff trees).mpr table)
      rw [found', Option.map_some, Option.map_some, write.read trees table]
      simp only [page]
      exact apply_ite some _ _ _
  | none =>
      have missing : ∀ t, ¬ HasTable live k b (tablePath w) t := by
        intro t table
        rw [(walkToPt_eq_some alive lower').mpr table] at found
        cases found
      have found' : walkToPt k'.mem (k'.rootOf b) w = none :=
        walkToPt_eq_none alive lower' fun t table =>
          missing t ((write.hasTable_iff trees).mp table)
      rw [found', Option.map_none, Option.map_none, if_neg]
      rintro ⟨rfl, same⟩
      obtain ⟨pt, table, -⟩ := write.written
      rw [← (page.mpr same).1] at table
      exact missing pt table

theorem leafAt_eq {v w : VirtAddr}
    (write : LeafWrite live a (tablePath v) (ptIndex v) e k k') (trees : Trees live k)
    (alive : live b) (lower : LowerHalf v) (lower' : LowerHalf w) :
    leafAt k'.mem (k'.rootOf b) w =
      if b = a ∧ pageOf w = pageOf v then (some e).filter present
      else leafAt k.mem (k.rootOf b) w := by
  rw [leafAt, write.leafEntry_eq trees alive lower lower', leafAt]
  exact apply_ite (Option.filter present) _ _ _

theorem inv [PageTableFrameAlloc A] [LawfulFrameAlloc A] {s s' : Sys A}
    (write : LeafWrite live a path i e s.toMachine s'.toMachine)
    (alloc : s'.ptAlloc = s.ptAlloc) (before : TreesInv live s) : TreesInv live s' where
  toTrees := write.trees before.toTrees
  valid := by
    rw [alloc]
    exact before.valid
  held table := by
    rw [alloc]
    exact before.held ((write.hasTable_iff before.toTrees).mp table)

end LeafWrite

/-! ### The mapping operations on a live space -/

section

variable [PageTableFrameAlloc A] [LawfulFrameAlloc A]
variable {live : Fin maxAddressSpaces → Prop} {a : Fin maxAddressSpaces} {s : Sys A}
variable {v : VirtAddr}

/-- `s'` is `s` after the leaf entry of `v` in space `a` became `e`. -/
structure WritesLeaf (live : Fin maxAddressSpaces → Prop) (a : Fin maxAddressSpaces)
    (v : VirtAddr) (e : Word) (s s' : Sys A) : Prop where
  write : LeafWrite live a (tablePath v) (ptIndex v) e s.toMachine s'.toMachine
  rest : s' = { s with mem := s'.mem, tlbOps := s.tlbOps ++ [.invlpg v] }

theorem WritesLeaf.inv {e : Word} {s' : Sys A} (writes : WritesLeaf live a v e s s')
    (before : TreesInv live s) : TreesInv live s' :=
  writes.write.inv (by rw [writes.rest]) before

omit [PageTableFrameAlloc A] [LawfulFrameAlloc A] in
theorem writesLeaf_of_table {pt : PhysAddr}
    (table : HasTable live s.toMachine a (tablePath v) pt) (e : Word) :
    WritesLeaf live a v e s
      { s with
        mem := writeEntry s.mem pt (ptIndex v) e
        tlbOps := s.tlbOps ++ [.invlpg v] } :=
  ⟨⟨rfl, ⟨pt, table, rfl⟩, rfl⟩, rfl⟩

/-- The ways `map_4k` can end at a lower-half address. -/
inductive MapEnds (live : Fin maxAddressSpaces → Prop) (a : Fin maxAddressSpaces)
    (v : VirtAddr) (p : PhysAddr) (flags : MapFlags) (s : Sys A) :
    Except MapError PUnit × Sys A → Prop where
  | unaligned (bad : ¬ (aligned4k v = true ∧ aligned4k p = true)) :
      MapEnds live a v p flags s (.error .unaligned, s)
  | outOfMemory {s' : Sys A} (aligned : aligned4k v = true ∧ aligned4k p = true)
      (ext : Extends live a (flags.contains .user) s s')
      (absent : leafAt s.mem (s.rootOf a) v = none) :
      MapEnds live a v p flags s (.error .outOfMemory, s')
  | alreadyMapped {s' : Sys A} (aligned : aligned4k v = true ∧ aligned4k p = true)
      (ext : Extends live a (flags.contains .user) s s')
      (mapped : leafAt s.mem (s.rootOf a) v ≠ none) :
      MapEnds live a v p flags s (.error .alreadyMapped, s')
  | ok {s₁ s' : Sys A} (aligned : aligned4k v = true ∧ aligned4k p = true)
      (ext : Extends live a (flags.contains .user) s s₁)
      (absent : leafAt s.mem (s.rootOf a) v = none)
      (writes : WritesLeaf live a v (leafWord s.nxeEnabled p flags) s₁ s') :
      MapEnds live a v p flags s (.ok ⟨⟩, s')

theorem map4k_lower (inv : TreesInv live s) (alive : live a) (lower : LowerHalf v)
    (p : PhysAddr) (flags : MapFlags) :
    MapEnds live a v p flags s ((map4k (.slot a) v p flags).exec s) := by
  rw [map4k_exec, lower.canonical]
  by_cases aligned : aligned4k v = true ∧ aligned4k p = true
  · have descends : Descends live a (flags.contains .user) s ([] ++ tablePath v)
        ((ensurePath _ (s.asX86 (.slot a)).pml4Phys (tablePath v)).exec s) :=
      ensurePath_spec inv (Layout.At.root alive) lower.tablePath
    rw [if_neg (by simp [aligned]), if_neg (by simp)]
    generalize (ensurePath _ _ (tablePath v)).exec s = outcome at descends ⊢
    obtain ⟨e | pt, s'⟩ := outcome
    · obtain ⟨ext, rfl, missing⟩ := descends
      exact .outOfMemory aligned ext
        (leafAt_eq_none_of_walk (walkToPt_eq_none alive lower missing))
    · obtain ⟨ext, table⟩ := descends
      have found := leafAt_eq_of_walk ((walkToPt_eq_some alive lower).mpr table)
      rw [ext.leafAt_eq alive lower] at found
      have nxe : s'.nxeEnabled = s.nxeEnabled := by rw [ext.rest]
      dsimp only
      rw [mapLeaf]
      by_cases isPresent : present (readEntry s'.mem pt (ptIndex v)) = true
      · rw [if_pos isPresent] at found ⊢
        exact .alreadyMapped aligned ext (by simp [found])
      · rw [if_neg isPresent] at found ⊢
        exact .ok aligned ext found (nxe ▸ writesLeaf_of_table table _)
  · rw [if_pos (by simpa [or_iff_not_imp_left] using aligned)]
    exact .unaligned aligned

/-- The ways `unmap_4k` and `protect_4k` can end at a lower-half address. -/
inductive ReplaceEnds (live : Fin maxAddressSpaces → Prop) (a : Fin maxAddressSpaces)
    (v : VirtAddr) (update : Bool → Word → Word) (s : Sys A) :
    Except MapError PUnit × Sys A → Prop where
  | unaligned (bad : aligned4k v = false) :
      ReplaceEnds live a v update s (.error .unaligned, s)
  | notMapped (aligned : aligned4k v = true)
      (absent : leafAt s.mem (s.rootOf a) v = none) :
      ReplaceEnds live a v update s (.error .notMapped, s)
  | ok {s' : Sys A} {e : Word} (aligned : aligned4k v = true)
      (mapped : leafAt s.mem (s.rootOf a) v = some e)
      (writes : WritesLeaf live a v (update s.nxeEnabled e) s s') :
      ReplaceEnds live a v update s (.ok ⟨⟩, s')

omit [PageTableFrameAlloc A] [LawfulFrameAlloc A] in
theorem replaceLeaf_lower (alive : live a) (lower : LowerHalf v)
    (update : Bool → Word → Word) :
    ReplaceEnds live a v update s ((replaceLeaf (.slot a) v update).exec s) := by
  rw [replaceLeaf_exec, lower.canonical]
  cases aligned : aligned4k v with
  | false => exact .unaligned aligned
  | true =>
      rw [if_neg (by simp), if_neg (by simp)]
      cases found : walkToPt s.mem (s.asX86 (.slot a)).pml4Phys v with
      | none => exact .notMapped aligned (leafAt_eq_none_of_walk found)
      | some pt =>
          have table := (walkToPt_eq_some alive lower).mp found
          have leaf := leafAt_eq_of_walk found
          dsimp only
          by_cases isPresent : present (readEntry s.mem pt (ptIndex v)) = true
          · rw [if_pos isPresent] at leaf
            rw [if_neg (by simp [isPresent])]
            exact .ok aligned leaf (writesLeaf_of_table table _)
          · rw [if_neg isPresent] at leaf
            rw [if_pos (by simpa using isPresent)]
            exact .notMapped aligned leaf

/-- What `protect_4k` makes of a leaf entry. -/
def protectedEntry (flags : MapFlags) (nxe : Bool) (entry : Word) : Word :=
  (entry &&& addrMask) ||| flagsToPte nxe flags

omit [PageTableFrameAlloc A] [LawfulFrameAlloc A] in
theorem unmap4k_lower (alive : live a) (lower : LowerHalf v) :
    ReplaceEnds live a v (fun _ _ => 0) s ((unmap4k (.slot a) v).exec s) :=
  replaceLeaf_lower alive lower _

omit [PageTableFrameAlloc A] [LawfulFrameAlloc A] in
theorem protect4k_lower (alive : live a) (lower : LowerHalf v) (flags : MapFlags) :
    ReplaceEnds live a v (protectedEntry flags) s ((protect4k (.slot a) v flags).exec s) :=
  replaceLeaf_lower alive lower _

/-- What every mapping operation on space `a` leaves true, however it ends. -/
structure LowerStep (live : Fin maxAddressSpaces → Prop) (a : Fin maxAddressSpaces)
    (s s' : Sys A) : Prop where
  inv : TreesInv live s'
  keeps : Keeps (fun b => live b ∧ b ≠ a) s.toMachine s'.toMachine
  heldMono : ∀ {g}, Held s.ptAlloc g → Held s'.ptAlloc g
  frame : ∀ x, s'.mem x = s.mem x ∨ ∃ t, IsFrame t ∧ InFrame t x ∧
    ((∃ path, HasTable live s.toMachine a path t) ∨
      ¬ Held s.ptAlloc t ∧ Held s'.ptAlloc t)
  slots : s'.asSlots = s.asSlots
  nxe : s'.nxeEnabled = s.nxeEnabled
  kernel : s'.kas = s.kas ∧ s'.kasHandle = s.kasHandle

theorem LowerStep.refl (inv : TreesInv live s) : LowerStep live a s s :=
  ⟨inv, ⟨fun _ => rfl, fun _ _ => rfl⟩, id, fun _ => Or.inl rfl, rfl, rfl, rfl, rfl⟩

theorem Extends.lowerStep {user : Bool} {s' : Sys A} (ext : Extends live a user s s') :
    LowerStep live a s s' where
  inv := ext.inv
  keeps := ext.keeps
  heldMono := ext.heldMono
  frame := ext.frame
  slots := ext.asSlots
  nxe := by rw [ext.rest]
  kernel := by constructor <;> rw [ext.rest]

/-- A leaf write after some tables were created. -/
theorem Extends.lowerStep_write {user : Bool} {e : Word} {s₁ s' : Sys A}
    (ext : Extends live a user s s₁) (writes : WritesLeaf live a v e s₁ s') :
    LowerStep live a s s' where
  inv := writes.inv ext.inv
  keeps := ext.keeps.trans (writes.write.keeps ext.inv.toTrees)
  heldMono early := by
    rw [writes.rest]
    exact ext.heldMono early
  frame x := by
    have alloc : s'.ptAlloc = s₁.ptAlloc := by rw [writes.rest]
    obtain ⟨pt, table, mem⟩ := writes.write.written
    by_cases slot : x = entryAddr pt (ptIndex v)
    · refine Or.inr ⟨pt, ext.inv.isFrame table, slot ▸ inFrame_entryAddr pt _, ?_⟩
      rcases ext.fresh table with old | ⟨-, -, free, -⟩
      · exact Or.inl ⟨tablePath v, old⟩
      · exact Or.inr ⟨free, alloc ▸ ext.inv.held table⟩
    · rw [mem, writeEntry_apply, if_neg slot, alloc]
      exact ext.frame x
  slots := by rw [writes.rest, ext.rest]
  nxe := by rw [writes.rest, ext.rest]
  kernel := by constructor <;> rw [writes.rest, ext.rest]

theorem MapEnds.lowerStep {p : PhysAddr} {flags : MapFlags} (inv : TreesInv live s)
    {outcome : Except MapError PUnit × Sys A}
    (ends : MapEnds live a v p flags s outcome) : LowerStep live a s outcome.2 := by
  cases ends with
  | unaligned => exact .refl inv
  | outOfMemory _ ext => exact ext.lowerStep
  | alreadyMapped _ ext => exact ext.lowerStep
  | ok _ ext _ writes => exact ext.lowerStep_write writes

theorem ReplaceEnds.lowerStep {update : Bool → Word → Word} (inv : TreesInv live s)
    {outcome : Except MapError PUnit × Sys A}
    (ends : ReplaceEnds live a v update s outcome) : LowerStep live a s outcome.2 := by
  cases ends with
  | unaligned => exact .refl inv
  | notMapped => exact .refl inv
  | ok _ _ writes =>
      have still : Extends live a false s s := .refl inv
      exact still.lowerStep_write writes

end

end RincOs
