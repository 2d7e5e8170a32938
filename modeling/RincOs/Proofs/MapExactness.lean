/-
Module: RincOs.Proofs.MapExactness
Purpose: What `map_4k` maps.  After a success `translate` returns the address field
  of the frame asked for, in any state in which the tables on the way to the page
  are not handed out once more; whether the field holds the whole address is
  never checked.
Trusted boundary: none
Main exports:
  WalkSpared, ensurePath_walks, map4k_ok, RunInv.walkSpared, Leveled.walkSpared,
  MapRefused, map4k_refused_iff, MapExact, mapExact_iff, mapExact_nxSpace, high_frame_mapped
-/
import RincOs.Proofs.TableLevels
import RincOs.Proofs.Rights

namespace RincOs

open RadixForest LawfulFrameAlloc

variable {A : Type} [PageTableFrameAlloc A]

/-! ### Walks and new tables -/

/-- The tables met on a path from `t` are never given out. -/
def WalkSpared (s : Sys A) (t : PhysAddr) (path : List (Fin entryCount)) : Prop :=
  ∀ above q, above <+: path → walk (nextTable s.mem) t above = some q → NeverGiven s.ptAlloc q

theorem WalkSpared.here {s : Sys A} {t : PhysAddr} {path : List (Fin entryCount)}
    (spared : WalkSpared s t path) : NeverGiven s.ptAlloc t :=
  spared [] t (List.nil_prefix) rfl

theorem WalkSpared.child {s : Sys A} {t child : PhysAddr} {i : Fin entryCount}
    {path : List (Fin entryCount)} (spared : WalkSpared s t (i :: path))
    (slot : nextTable s.mem t i = some child) : WalkSpared s child path := by
  intro above q isPrefix walked
  apply spared (i :: above) q ((List.cons_prefix_cons).mpr ⟨rfl, isPrefix⟩)
  rw [walk_cons, slot]
  exact walked

theorem walkSpared_nil {s : Sys A} {t : PhysAddr} (here : NeverGiven s.ptAlloc t) :
    WalkSpared s t [] := by
  intro above q isPrefix walked
  obtain rfl := List.prefix_nil.mp isPrefix
  obtain rfl := Option.some.inj walked
  exact here

theorem walkSpared_cons {s : Sys A} {t : PhysAddr} {i : Fin entryCount}
    {path : List (Fin entryCount)} (here : NeverGiven s.ptAlloc t)
    (below : ∀ child, nextTable s.mem t i = some child → WalkSpared s child path) :
    WalkSpared s t (i :: path) := by
  intro above q isPrefix walked
  cases above with
  | nil =>
      obtain rfl := Option.some.inj walked
      exact here
  | cons j above =>
      obtain ⟨rfl, inRest⟩ := List.cons_prefix_cons.mp isPrefix
      rw [walk_cons, Option.bind_eq_some_iff] at walked
      obtain ⟨child, slot, walked⟩ := walked
      exact below child slot above q inRest walked

/-- Below an empty table there is nothing to give out. -/
theorem walkSpared_of_zero {s : Sys A} {t : PhysAddr} (zero : ∀ i, readEntry s.mem t i = 0)
    (own : NeverGiven s.ptAlloc t) (path : List (Fin entryCount)) : WalkSpared s t path := by
  cases path with
  | nil => exact walkSpared_nil own
  | cons i path =>
      apply walkSpared_cons own
      intro child slot
      have isPresent := (nextTable_eq_some.mp slot).1
      rw [zero, present_zero] at isPresent
      cases isPresent

/-- From `s` to `s'` the present entries of the tables that are never given out stay. -/
def KeepsSpared (s s' : Sys A) : Prop :=
  ∀ q i, IsFrame q → NeverGiven s.ptAlloc q → present (readEntry s.mem q i) = true →
    readEntry s'.mem q i = readEntry s.mem q i

section

variable [LawfulFrameAlloc A] {s s' : Sys A}

omit [LawfulFrameAlloc A] in
theorem NeverGiven.ne {q f : PhysAddr} {al : A} {m : Mem} (never : NeverGiven s.ptAlloc q)
    (alloc : allocFrame4k s.ptAlloc s.mem = (some f, al, m)) : q ≠ f := by
  rintro rfl
  exact never _ _ _ _ .refl alloc

/-- A new table is linked into an absent entry, so present entries of spared tables stay. -/
theorem readEntry_link_spared {t q f : PhysAddr} {i j : Fin entryCount} {al : A} {m : Mem}
    (user : Bool) (valid : Valid s.ptAlloc) (frame : IsFrame t)
    (absent : ¬ present (readEntry s.mem t i) = true)
    (alloc : allocFrame4k s.ptAlloc s.mem = (some f, al, m)) (spared : IsFrame q)
    (never : NeverGiven s.ptAlloc q) (isPresent : present (readEntry s.mem q j) = true) :
    readEntry (linkTable m t i f user) q j = readEntry s.mem q j := by
  obtain ⟨-, newFrame, -, -, outside⟩ := alloc_some valid alloc
  have notSlot : ¬ (q = t ∧ j = i) := by
    rintro ⟨rfl, rfl⟩
    exact absent isPresent
  rw [readEntry_linkTable outside frame newFrame spared, if_neg notSlot, if_neg (never.ne alloc)]

/-- A new table is a frame with nothing below it. -/
theorem walkSpared_linked {t f : PhysAddr} {i : Fin entryCount} {user : Bool} {al : A} {m : Mem}
    (valid : Valid s.ptAlloc) (frame : IsFrame t) (never : NeverGiven s.ptAlloc t)
    (alloc : allocFrame4k s.ptAlloc s.mem = (some f, al, m)) (path : List (Fin entryCount)) :
    Valid al ∧ IsFrame f ∧
      WalkSpared { s with ptAlloc := al, mem := linkTable m t i f user } f path := by
  obtain ⟨validAfter, newFrame, -, held, outside⟩ := alloc_some valid alloc
  have own : NeverGiven al f := neverGiven_of_held validAfter ((held f).mpr (Or.inr rfl))
  have zero : ∀ j, readEntry (linkTable m t i f user) f j = 0 :=
    readEntry_linkTable_new outside frame newFrame (never.ne alloc).symm
  exact ⟨validAfter, newFrame, walkSpared_of_zero zero own path⟩

/-- However `ensure_table` calls down a path end, the present entries of spared tables stay. -/
theorem ensurePath_keepsSpared (user : Bool) {t : PhysAddr} {path : List (Fin entryCount)}
    (valid : Valid s.ptAlloc) (frame : IsFrame t) (spared : WalkSpared s t path) :
    KeepsSpared s ((ensurePath user t path).exec s).2 := by
  induction path generalizing s t with
  | nil => exact fun _ _ _ _ _ => rfl
  | cons i path inductionHypothesis =>
      rw [ensurePath, MmuM.exec_bind, ensureTable_exec]
      by_cases isPresent : present (readEntry s.mem t i) = true
      · rw [if_pos isPresent]
        have slot : nextTable s.mem t i = some (readEntry s.mem t i &&& addrMask) :=
          nextTable_eq_some.mpr ⟨isPresent, rfl⟩
        exact inductionHypothesis valid (isFrame_and_addrMask _) (spared.child slot)
      · rw [if_neg isPresent]
        rcases alloc : allocFrame4k s.ptAlloc s.mem with ⟨_ | f, al, m⟩
        · obtain ⟨-, rfl, -⟩ := alloc_none valid alloc
          exact fun _ _ _ _ _ => rfl
        · obtain ⟨validAfter, newFrame, below⟩ :=
            walkSpared_linked valid frame spared.here alloc path
          have keeps := inductionHypothesis validAfter newFrame below
          intro q j qFrame never qPresent
          have same : readEntry (linkTable m t i f user) q j = readEntry s.mem q j :=
            readEntry_link_spared user valid frame isPresent alloc qFrame never qPresent
          exact (keeps q j qFrame (never.alloc alloc) (same.symm ▸ qPresent)).trans same

/-- The entry of a new table stays while the tables below it are found or made. -/
theorem ensurePath_linked {t f : PhysAddr} {i : Fin entryCount} {user : Bool} {al : A} {m : Mem}
    (valid : Valid s.ptAlloc) (frame : IsFrame t) (never : NeverGiven s.ptAlloc t)
    (alloc : allocFrame4k s.ptAlloc s.mem = (some f, al, m)) (path : List (Fin entryCount)) :
    readEntry ((ensurePath user f path).exec
        { s with ptAlloc := al, mem := linkTable m t i f user }).2.mem t i =
      tableEntry f user := by
  obtain ⟨validAfter, newFrame, below⟩ := walkSpared_linked valid frame never alloc path
  have linked : readEntry (linkTable m t i f user) t i = tableEntry f user := by
    rw [linkTable, readEntry_writeEntry_self]
  have keeps := ensurePath_keepsSpared user validAfter newFrame below
  exact (keeps t i frame (never.alloc alloc) (by rw [linked, present_tableEntry])).trans linked

/-- `ensure_table` calls down a path lead to the table that the walk finds afterwards. -/
theorem ensurePath_walks {user : Bool} {t pt : PhysAddr} {path : List (Fin entryCount)}
    (valid : Valid s.ptAlloc) (frame : IsFrame t) (spared : WalkSpared s t path)
    (done : (ensurePath user t path).exec s = (.ok pt, s')) :
    walk (nextTable s'.mem) t path = some pt := by
  induction path generalizing s t with
  | nil =>
      obtain ⟨same, rfl⟩ := Prod.mk.inj done
      obtain rfl := Except.ok.inj same
      rfl
  | cons i path inductionHypothesis =>
      have kept := ensurePath_keepsSpared user valid frame spared
      rw [done] at kept
      rw [ensurePath, MmuM.exec_bind, ensureTable_exec] at done
      by_cases isPresent : present (readEntry s.mem t i) = true
      · rw [if_pos isPresent] at done
        have slot : nextTable s.mem t i = some (readEntry s.mem t i &&& addrMask) :=
          nextTable_eq_some.mpr ⟨isPresent, rfl⟩
        have stays := nextTable_congr (kept t i frame spared.here isPresent)
        rw [walk_cons, stays, slot]
        exact inductionHypothesis valid (isFrame_and_addrMask _) (spared.child slot) done
      · rw [if_neg isPresent] at done
        rcases alloc : allocFrame4k s.ptAlloc s.mem with ⟨_ | f, al, m⟩
        · rw [alloc] at done
          cases done
        · rw [alloc] at done
          obtain ⟨validAfter, newFrame, below⟩ :=
            walkSpared_linked valid frame spared.here alloc path
          have linked := @ensurePath_linked A _ _ s t f i user al m valid frame spared.here alloc
            path
          have slot : nextTable s'.mem t i = some f := by
            rw [congrArg Prod.snd done] at linked
            rw [nextTable_eq_some, linked, present_tableEntry, tableEntry_and_addrMask]
            exact ⟨rfl, newFrame⟩
          rw [walk_cons, slot]
          exact inductionHypothesis validAfter newFrame below done

/-- Where a table is missing and there is no frame for it, memory stays as it is. -/
theorem ensurePath_noFrame {t : PhysAddr} {path : List (Fin entryCount)}
    (valid : Valid s.ptAlloc) (missing : walk (nextTable s.mem) t path = none)
    (noFrame : (allocFrame4k s.ptAlloc s.mem).1 = none) (user : Bool) :
    ∃ s', (ensurePath user t path).exec s = (.error .outOfMemory, s') ∧ s'.mem = s.mem := by
  induction path generalizing t with
  | nil => cases missing
  | cons i path inductionHypothesis =>
      rw [ensurePath, MmuM.exec_bind, ensureTable_exec]
      by_cases isPresent : present (readEntry s.mem t i) = true
      · have slot : nextTable s.mem t i = some (readEntry s.mem t i &&& addrMask) :=
          nextTable_eq_some.mpr ⟨isPresent, rfl⟩
        rw [walk_cons, slot] at missing
        rw [if_pos isPresent]
        exact inductionHypothesis missing
      · rw [if_neg isPresent]
        rcases alloc : allocFrame4k s.ptAlloc s.mem with ⟨_ | f, al, m⟩
        · exact ⟨_, rfl, (alloc_none valid alloc).2.1⟩
        · rw [alloc] at noFrame
          cases noFrame

/-- Where there is one, memory changes, whether the later tables are made or not. -/
theorem ensurePath_changes {t : PhysAddr} {path : List (Fin entryCount)}
    (valid : Valid s.ptAlloc) (frame : IsFrame t) (spared : WalkSpared s t path)
    (missing : walk (nextTable s.mem) t path = none)
    (given : (allocFrame4k s.ptAlloc s.mem).1 ≠ none) (user : Bool) :
    ((ensurePath user t path).exec s).2.mem ≠ s.mem := by
  induction path generalizing t with
  | nil => cases missing
  | cons i path inductionHypothesis =>
      rw [ensurePath, MmuM.exec_bind, ensureTable_exec]
      by_cases isPresent : present (readEntry s.mem t i) = true
      · have slot : nextTable s.mem t i = some (readEntry s.mem t i &&& addrMask) :=
          nextTable_eq_some.mpr ⟨isPresent, rfl⟩
        rw [walk_cons, slot] at missing
        rw [if_pos isPresent]
        exact inductionHypothesis (isFrame_and_addrMask _) (spared.child slot) missing
      · rw [if_neg isPresent]
        rcases alloc : allocFrame4k s.ptAlloc s.mem with ⟨_ | f, al, m⟩
        · rw [alloc] at given
          exact absurd rfl given
        · intro same
          have linked := @ensurePath_linked A _ _ s t f i user al m valid frame spared.here alloc
            path
          rw [same] at linked
          rw [linked, present_tableEntry] at isPresent
          exact isPresent rfl

omit [PageTableFrameAlloc A] [LawfulFrameAlloc A] in
/-- A write to an absent entry changes no walk that succeeds. -/
theorem walk_writeEntry_absent {m : Mem} {pt t q : PhysAddr} {i : Fin entryCount}
    (absent : present (readEntry m pt i) = false) (e : Word) {path : List (Fin entryCount)}
    (walked : walk (nextTable m) t path = some q) :
    walk (nextTable (writeEntry m pt i e)) t path = some q := by
  induction path generalizing t with
  | nil => exact walked
  | cons j path inductionHypothesis =>
      rw [walk_cons, Option.bind_eq_some_iff] at walked
      obtain ⟨child, slot, walked⟩ := walked
      have isPresent := (nextTable_eq_some.mp slot).1
      have other : entryAddr t j ≠ entryAddr pt i := by
        intro same
        rw [readEntry, same] at isPresent
        rw [readEntry] at absent
        rw [absent] at isPresent
        cases isPresent
      have stays : readEntry (writeEntry m pt i e) t j = readEntry m t j := by
        rw [readEntry, writeEntry_apply, if_neg other, readEntry]
      rw [walk_cons, nextTable_congr stays, slot]
      exact inductionHypothesis walked

omit [LawfulFrameAlloc A] in
theorem ensurePath_nxeEnabled (user : Bool) (t : PhysAddr) (path : List (Fin entryCount))
    (s : Sys A) : ((ensurePath user t path).exec s).2.nxeEnabled = s.nxeEnabled := by
  apply @ensurePath_keeps A _ fun s s' => s'.nxeEnabled = s.nxeEnabled
  · exact fun _ => rfl
  · exact fun _ _ same => same

omit [LawfulFrameAlloc A] in
theorem map4k_asX86 (aspace : AddressSpace) (v : VirtAddr) (p : PhysAddr) (flags : MapFlags)
    (s : Sys A) : ((map4k aspace v p flags).exec s).2.asX86 aspace = s.asX86 aspace := by
  have statics := map4k_statics aspace v p flags s
  cases aspace with
  | kas => rw [Machine.asX86, Machine.asX86, statics.kas]
  | slot a => rw [Machine.asX86, Machine.asX86, statics.asSlots]

omit [LawfulFrameAlloc A] in
/-- A success passed the checks, found or made the tables and an absent leaf entry. -/
theorem map4k_ok_cases {aspace : AddressSpace} {v : VirtAddr} {p : PhysAddr} {flags : MapFlags}
    (done : (map4k aspace v p flags).exec s = (.ok ⟨⟩, s')) :
    aligned4k v = true ∧ aligned4k p = true ∧ isCanonical v = true ∧
      ∃ pt s₁, (ensurePath (flags.contains .user) (s.asX86 aspace).pml4Phys
          (tablePath v)).exec s = (.ok pt, s₁) ∧
        present (readEntry s₁.mem pt (ptIndex v)) = false ∧
        s'.mem = writeEntry s₁.mem pt (ptIndex v) (leafWord s₁.nxeEnabled p flags) := by
  rw [map4k_exec] at done
  split at done
  · cases done
  rename_i aligned
  split at done
  · cases done
  rename_i canonical
  rw [Bool.or_eq_true, Bool.not_eq_true', Bool.not_eq_true', not_or, Bool.not_eq_false,
    Bool.not_eq_false] at aligned
  rw [Bool.not_eq_true', Bool.not_eq_false] at canonical
  refine ⟨aligned.1, aligned.2, canonical, ?_⟩
  rcases path : (ensurePath (flags.contains .user) (s.asX86 aspace).pml4Phys
    (tablePath v)).exec s with ⟨e | pt, s₁⟩
  · rw [path] at done
    cases done
  · rw [path] at done
    dsimp only at done
    rw [mapLeaf] at done
    split at done
    · cases done
    · rename_i absent
      obtain ⟨-, rfl⟩ := Prod.mk.inj done
      exact ⟨pt, s₁, rfl, Bool.eq_false_iff.mpr absent, rfl⟩

/-- After a success the leaf entry is the one written, and `translate` returns the
address field of the frame. -/
theorem map4k_ok {aspace : AddressSpace} {v : VirtAddr} {p : PhysAddr} {flags : MapFlags}
    (valid : Valid s.ptAlloc) (frame : IsFrame (s.asX86 aspace).pml4Phys)
    (spared : WalkSpared s (s.asX86 aspace).pml4Phys (tablePath v))
    (done : (map4k aspace v p flags).exec s = (.ok ⟨⟩, s')) :
    leafEntry s'.mem (s'.asX86 aspace).pml4Phys v = some (leafWord s.nxeEnabled p flags) ∧
      translate s'.toMachine aspace v = .ok (p &&& addrMask) := by
  obtain ⟨aligned, -, canonical, pt, s₁, path, absent, written⟩ := map4k_ok_cases done
  have sameRoot : s'.asX86 aspace = s.asX86 aspace := by
    rw [← map4k_asX86 aspace v p flags s, done]
  have sameNxe : s₁.nxeEnabled = s.nxeEnabled := by
    rw [← ensurePath_nxeEnabled _ _ _ s, path]
  have walked := ensurePath_walks valid frame spared path
  have found : walkToPt s'.mem (s'.asX86 aspace).pml4Phys v = some pt := by
    rw [walkToPt_eq_walk, written, sameRoot]
    exact walk_writeEntry_absent absent _ walked
  have leaf : leafEntry s'.mem (s'.asX86 aspace).pml4Phys v =
      some (leafWord s.nxeEnabled p flags) := by
    rw [leafEntry, found, Option.map_some, written, readEntry_writeEntry_self, sameNxe]
  refine ⟨leaf, ?_⟩
  have offset : v &&& 0xfff = 0 := beq_iff_eq.mp aligned
  rw [translate_leafAt _ _ canonical, leafAt, leaf, Option.filter_some, present_leafWord,
    if_pos rfl]
  dsimp only
  rw [leafWord_and_addrMask, offset]
  exact congrArg _ BitVec.or_zero

/-! ### States in which the tables are spared -/

/-- In the lower half of a created space, over every run of calls there. -/
theorem RunInv.walkSpared {a : Fin maxAddressSpaces} {v : VirtAddr} (inv : RunInv s)
    (used : Used s.toMachine a) (lower : LowerHalf v) :
    WalkSpared s (s.rootOf a) (tablePath v) := by
  intro above q isPrefix walked
  have admitted : LowerPath 3 above := by
    obtain ⟨length, head⟩ := lower.tablePath
    refine ⟨isPrefix.length_le.trans length, fun i first => head i ?_⟩
    cases above with
    | nil => cases first
    | cons j above =>
        obtain ⟨rest, whole⟩ := isPrefix
        rw [← whole]
        exact first
  exact neverGiven_of_held inv.trees.valid (inv.trees.held ⟨used, admitted, walked⟩)

/-- In every space, outside large pages, as long as the tables have one level each. -/
theorem Leveled.walkSpared {level : Nat → PhysAddr → Prop} {t : PhysAddr}
    {path : List (Fin entryCount)} (leveled : Leveled level s)
    (table : level (path.length + 1) t) (small : SmallPath s.mem t path) :
    WalkSpared s t path := by
  induction path generalizing t with
  | nil => exact walkSpared_nil (leveled.reserved table)
  | cons i path inductionHypothesis =>
      apply walkSpared_cons (leveled.reserved table)
      intro child slot
      obtain ⟨isPresent, rfl⟩ := nextTable_eq_some.mp slot
      obtain ⟨links, rest⟩ := small isPresent
      exact inductionHypothesis (leveled.below (Nat.succ_pos _) table links) rest

end

/-! ### The frame asked for -/

/-- A success maps exactly `p`, with the bits of `p` and of the flags only; a frame that no
entry can hold is refused without effect on memory. -/
structure MapExact (s : Sys A) (aspace : AddressSpace) (v : VirtAddr) (p : PhysAddr)
    (flags : MapFlags) : Prop where
  mapped : ∀ s', (map4k aspace v p flags).exec s = (.ok ⟨⟩, s') →
    translate s'.toMachine aspace v = .ok p ∧
      ∃ leaf, leafEntry s'.mem (s'.asX86 aspace).pml4Phys v = some leaf ∧
        leaf &&& ~~~((p &&& addrMask) ||| flagsToPte s.nxeEnabled flags) = 0
  refused : p &&& addrMask ≠ p →
    ∃ e s', (map4k aspace v p flags).exec s = (.error e, s') ∧ s'.mem = s.mem

/-- Why `map_4k` fails before it has written anything, in the state before the call: the
arguments, a page that is mapped already, or no frame for the first table that is missing. -/
inductive MapRefused (s : Sys A) (aspace : AddressSpace) (v : VirtAddr) (p : PhysAddr) : Prop
  | unaligned (odd : aligned4k v = false ∨ aligned4k p = false)
  | invalidArgs (outside : isCanonical v = false)
  | alreadyMapped (mapped : (leafAt s.mem (s.asX86 aspace).pml4Phys v).isSome = true)
  | outOfMemory (missing : walkToPt s.mem (s.asX86 aspace).pml4Phys v = none)
      (noFrame : (allocFrame4k s.ptAlloc s.mem).1 = none)

section

variable [LawfulFrameAlloc A] {s : Sys A} {aspace : AddressSpace} {v : VirtAddr} {p : PhysAddr}

omit [LawfulFrameAlloc A] in
/-- For arguments that pass the checks, only the tables and the frames matter. -/
theorem mapRefused_checked (aligned : (!aligned4k v || !aligned4k p) = false)
    (canonical : (!isCanonical v) = false) :
    MapRefused s aspace v p ↔
      (leafAt s.mem (s.asX86 aspace).pml4Phys v).isSome = true ∨
        walkToPt s.mem (s.asX86 aspace).pml4Phys v = none ∧
          (allocFrame4k s.ptAlloc s.mem).1 = none := by
  constructor
  · intro refused
    cases refused with
    | unaligned odd => rcases odd with odd | odd <;> simp [odd] at aligned
    | invalidArgs outside => simp [outside] at canonical
    | alreadyMapped mapped => exact .inl mapped
    | outOfMemory missing noFrame => exact .inr ⟨missing, noFrame⟩
  · rintro (mapped | ⟨missing, noFrame⟩)
    · exact .alreadyMapped mapped
    · exact .outOfMemory missing noFrame

/-- `map_4k` fails with memory unchanged exactly for these reasons. -/
theorem map4k_refused_iff (valid : Valid s.ptAlloc) (frame : IsFrame (s.asX86 aspace).pml4Phys)
    (spared : WalkSpared s (s.asX86 aspace).pml4Phys (tablePath v)) (flags : MapFlags) :
    (∃ e s', (map4k aspace v p flags).exec s = (.error e, s') ∧ s'.mem = s.mem) ↔
      MapRefused s aspace v p := by
  rw [map4k_exec]
  cases aligned : !aligned4k v || !aligned4k p with
  | true =>
      refine iff_of_true ⟨.unaligned, s, if_pos rfl, rfl⟩ (.unaligned ?_)
      simpa using aligned
  | false =>
  cases canonical : !isCanonical v with
  | true =>
      refine iff_of_true ⟨.invalidArgs, s, rfl, rfl⟩ (.invalidArgs ?_)
      simpa using canonical
  | false =>
  rw [if_neg Bool.false_ne_true, if_neg Bool.false_ne_true, mapRefused_checked aligned canonical]
  cases walked : walkToPt s.mem (s.asX86 aspace).pml4Phys v with
  | some pt =>
      have path := ensurePath_of_walk ((walkToPt_eq_walk ..).symm.trans walked)
        (flags.contains .user) []
      rw [List.append_nil] at path
      rw [path, leafAt_eq_of_walk walked]
      change (∃ e s', mapLeaf v p flags pt s = (.error e, s') ∧ s'.mem = s.mem) ↔ _
      rw [mapLeaf]
      by_cases isPresent : present (readEntry s.mem pt (ptIndex v)) = true
      · rw [if_pos isPresent]
        exact iff_of_true ⟨.alreadyMapped, s, rfl, rfl⟩ (.inl (by simp [isPresent]))
      · rw [if_neg isPresent]
        simp [isPresent]
  | none =>
      have missing := (walkToPt_eq_walk ..).symm.trans walked
      rw [leafAt_eq_none_of_walk walked]
      by_cases noFrame : (allocFrame4k s.ptAlloc s.mem).1 = none
      · obtain ⟨s', failed, same⟩ :=
          ensurePath_noFrame valid missing noFrame (flags.contains .user)
        rw [failed]
        exact iff_of_true ⟨.outOfMemory, s', rfl, same⟩ (.inr ⟨rfl, noFrame⟩)
      · have changes := ensurePath_changes valid frame spared missing noFrame (flags.contains .user)
        refine iff_of_false ?_ (by simp [noFrame])
        rintro ⟨e, s', failed, same⟩
        rcases path : (ensurePath (flags.contains .user) (s.asX86 aspace).pml4Phys
          (tablePath v)).exec s with ⟨e' | pt, s₁⟩
        · rw [path] at failed changes
          obtain ⟨-, rfl⟩ := Prod.mk.inj failed
          exact changes same
        · rw [path] at failed changes
          dsimp only at failed
          rw [mapLeaf] at failed
          split at failed
          · obtain ⟨-, rfl⟩ := Prod.mk.inj failed
            exact changes same
          · cases failed

end

/-- `map_4k` is exact for the frames below 2^52, and for the others only where it is refused
for another reason. -/
theorem mapExact_iff [LawfulFrameAlloc A] {s : Sys A} {aspace : AddressSpace} {v : VirtAddr}
    (p : PhysAddr) (flags : MapFlags) (valid : Valid s.ptAlloc)
    (frame : IsFrame (s.asX86 aspace).pml4Phys)
    (spared : WalkSpared s (s.asX86 aspace).pml4Phys (tablePath v)) :
    MapExact s aspace v p flags ↔ p.toNat < 2 ^ 52 ∨ MapRefused s aspace v p := by
  have refusedIff := map4k_refused_iff valid frame spared flags (p := p)
  constructor
  · intro isExact
    by_cases low : p.toNat < 2 ^ 52
    · exact .inl low
    · apply Or.inr (refusedIff.mp (isExact.refused _))
      intro holds
      exact low ((isFrame_iff p).mp holds).2
  · intro fits
    by_cases refused : MapRefused s aspace v p
    · have fails := refusedIff.mpr refused
      refine ⟨fun s' done => ?_, fun _ => fails⟩
      obtain ⟨e, s'', failed, -⟩ := fails
      rw [failed] at done
      cases done
    · have low := fits.resolve_right refused
      have holds : p &&& addrMask = p := by
        apply (isFrame_iff p).mpr
        refine ⟨?_, low⟩
        by_contra odd
        have unaligned : aligned4k p = false :=
          Bool.eq_false_iff.mpr fun aligned => odd ((aligned4k_iff p).mp aligned)
        exact refused (.unaligned (.inr unaligned))
      refine ⟨fun s' done => ?_, fun unfit => absurd holds unfit⟩
      obtain ⟨leaf, translated⟩ := map4k_ok valid frame spared done
      rw [holds] at translated
      exact ⟨translated, _, leaf, BitVec.and_not_self _⟩

/-- A page of the new space. -/
theorem mapExact_nxSpace : MapExact nxSpace (.slot 0) 0x400000 0x7000 .user := by
  have inv : RunInv nxSpace := runInv_of_lowerRun runs_nxSpace noSpaces_nxSys.runInv
  have used : Used nxSpace.toMachine 0 := by decide
  generalize nxSpace = s at inv used ⊢
  have spared : WalkSpared s (s.asX86 (.slot 0)).pml4Phys (tablePath 0x400000) :=
    inv.walkSpared used (by decide)
  have frame : IsFrame (s.asX86 (.slot 0)).pml4Phys := inv.trees.roots used
  exact (mapExact_iff 0x7000 .user inv.trees.valid frame spared).mpr (.inl (by decide))

/-- A frame at 2^52 is accepted, and the page shows frame 0. -/
theorem high_frame_mapped :
    let outcome := (map4k (.slot 0) 0x400000 0x10000000000000 .user).exec nxSpace
    outcome.1 = .ok ⟨⟩ ∧ translate outcome.2.toMachine (.slot 0) 0x400000 = .ok 0 ∧
      ¬ MapExact nxSpace (.slot 0) 0x400000 0x10000000000000 .user := by
  have accepted : ((map4k (.slot 0) 0x400000 0x10000000000000 .user).exec nxSpace).1 = .ok ⟨⟩ := by
    decide +kernel
  refine ⟨accepted, by decide +kernel, ?_⟩
  intro isExact
  obtain ⟨e, s', failed, -⟩ := isExact.refused (by decide)
  rw [failed] at accepted
  cases accepted

end RincOs
