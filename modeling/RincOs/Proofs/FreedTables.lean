/-
Module: RincOs.Proofs.FreedTables
Purpose: The frames `address_space_destroy` gives back, against the frames that were
  allocated for the space.  They are the same exactly if no page was mapped in a
  part of the upper half for which the kernel has no PDPT.
Trusted boundary: none
Main exports:
  SafeCall, SpaceCall, Born, FreesExactly, freesExactly_iff,
  freesExactly_sharedSpace, private_tables_kept
-/
import RincOs.Proofs.ActiveTables
import RincOs.Proofs.KernelHalf
import RincOs.Proofs.SpaceSteps

namespace RincOs

open RadixForest LawfulFrameAlloc

/-! ### Runs -/

/-- Calls on live spaces, at addresses that no large page covers. -/
def SafeCall (k : Machine) : Call → Prop
  | .new _ => True
  | .destroy aspace => LiveSpace k aspace
  | .map aspace v _ _ | .unmap aspace v | .protect aspace v _ =>
      LiveSpace k aspace ∧ largePage k.mem (k.asX86 aspace).pml4Phys v = false

/-- `map_4k`, `unmap_4k` and `protect_4k` calls on one created space. -/
def SpaceCall (a : Fin maxAddressSpaces) (k : Machine) (call : Call) : Prop :=
  ∃ v, call.Updates (.slot a) v ∧ largePage k.mem (k.rootOf a) v = false

section

variable {A : Type} [PageTableFrameAlloc A] [LawfulFrameAlloc A]
variable {reserved : PhysAddr → Prop} {root : PhysAddr} {level : Nat → PhysAddr → Prop}

theorem SplitInv.safeCall {s s' : Sys A} {call : Call} {result : Except MapError AddressSpace}
    (split : SplitInv reserved root level s) (may : SafeCall s.toMachine call)
    (done : call.exec s = (result, s')) : ∃ level', SplitInv reserved root level' s' := by
  cases call with
  | new cpu =>
      obtain ⟨-, rfl⟩ := Prod.mk.inj done
      exact ⟨level, split.new cpu⟩
  | destroy aspace =>
      obtain ⟨-, rfl⟩ := Prod.mk.inj done
      cases aspace with
      | kas =>
          rw [addressSpaceDestroy, split.side.known.1]
          exact ⟨level, split⟩
      | slot a => exact ⟨level, split.destroy may⟩
  | map aspace v p flags =>
      obtain ⟨-, rfl⟩ := Prod.mk.inj done
      exact split.map p flags may.1 may.2
  | unmap aspace v =>
      obtain ⟨-, rfl⟩ := Prod.mk.inj done
      exact ⟨level, split.replace _ may.1 may.2⟩
  | protect aspace v flags =>
      obtain ⟨-, rfl⟩ := Prod.mk.inj done
      exact ⟨level, split.replace _ may.1 may.2⟩

theorem SplitInv.safeRun {start s : Sys A} {history : List Event}
    (split : SplitInv reserved root level start) (run : Runs SafeCall start history s) :
    ∃ level', SplitInv reserved root level' s := by
  induction run with
  | start => exact ⟨level, split⟩
  | step _ may done inductionHypothesis =>
      obtain ⟨level₁, split₁⟩ := inductionHypothesis
      exact split₁.safeCall may done

variable {a : Fin maxAddressSpaces} {s₀ s₁ s s' : Sys (Recorded A)}

/-- What the calls on a space preserve. -/
structure SpaceInv (reserved : PhysAddr → Prop) (root : PhysAddr) (a : Fin maxAddressSpaces)
    (s₁ s : Sys (Recorded A)) : Prop where
  split : ∃ level, SplitInv reserved root level s
  used : Used s.toMachine a
  step : SpaceStep root a s₁ s
  hands : Hands s₁ s

theorem SpaceInv.extend (inv : SpaceInv reserved root a s₁ s)
    (split : ∃ level, SplitInv reserved root level s') (step : SpaceStep root a s s')
    (hands : Hands s s') : SpaceInv reserved root a s₁ s' where
  split := split
  used := step.used inv.used
  step := inv.step.trans step
  hands := inv.hands.trans hands

theorem SpaceInv.replace (inv : SpaceInv reserved root a s₁ s) {v : VirtAddr}
    (update : Bool → Word → Word) (small : largePage s.mem (s.rootOf a) v = false) :
    SpaceInv reserved root a s₁ ((replaceLeaf (.slot a) v update).exec s).2 := by
  obtain ⟨level, split⟩ := inv.split
  exact inv.extend ⟨level, split.replace update inv.used small⟩
    (split.replace_step update inv.used small)
    (.of_same inv.hands.valid (replaceLeaf_ptAlloc _ _ _ _))

theorem SpaceInv.call (inv : SpaceInv reserved root a s₁ s) {call : Call}
    {result : Except MapError AddressSpace} (may : SpaceCall a s.toMachine call)
    (done : call.exec s = (result, s')) : SpaceInv reserved root a s₁ s' := by
  obtain ⟨v, updates, small⟩ := may
  obtain ⟨level, split⟩ := inv.split
  cases call with
  | new cpu => exact updates.elim
  | destroy aspace => exact updates.elim
  | map aspace w p flags =>
      obtain ⟨rfl, rfl⟩ := updates
      obtain ⟨-, rfl⟩ := Prod.mk.inj done
      exact inv.extend (split.map p flags inv.used small) (split.map_step p flags inv.used small)
        (map4k_hands _ _ _ _ inv.hands.valid)
  | unmap aspace w =>
      obtain ⟨rfl, rfl⟩ := updates
      obtain ⟨-, rfl⟩ := Prod.mk.inj done
      exact inv.replace _ small
  | protect aspace w flags =>
      obtain ⟨rfl, rfl⟩ := updates
      obtain ⟨-, rfl⟩ := Prod.mk.inj done
      exact inv.replace _ small

theorem SpaceInv.run {history : List Event} (split : SplitInv reserved root level s₁)
    (used : Used s₁.toMachine a) (run : Runs (SpaceCall a) s₁ history s) :
    SpaceInv reserved root a s₁ s := by
  induction run with
  | start =>
      exact ⟨⟨level, split⟩, used, .refl root a s₁, .of_same split.inv.trees.valid rfl⟩
  | step _ may done inductionHypothesis => exact inductionHypothesis.call may done

/-! ### Creation -/

/-- The state after a space was created: its PML4 is a new frame, with nothing in the lower
half and the kernel's entries in the upper one. -/
structure Born (root : PhysAddr) (a : Fin maxAddressSpaces) (s₀ s₁ : Sys (Recorded A)) : Prop where
  used : Used s₁.toMachine a
  hands : Hands s₀ s₁
  kernel : ∀ i, readEntry s₁.mem root i = readEntry s₀.mem root i
  upper : ∀ i, kernelPml4Start ≤ i →
    readEntry s₁.mem (s₁.rootOf a) i = readEntry s₀.mem root i
  tables : ∀ {path t}, HasTable (Used s₁.toMachine) s₁.toMachine a path t →
    ¬ Held s₀.ptAlloc t

theorem SplitInv.born {cpu : Cpu} (split : SplitInv reserved root level s₀)
    (created : (addressSpaceNew cpu).exec s₀ = (.ok (.slot a), s₁)) : Born root a s₀ s₁ := by
  rw [addressSpaceNew_adopted cpu split.side.known.1 split.side.known.2] at created
  rcases newFromKernel_cases root s₀ with
    ⟨al, m, -, ends⟩ | ⟨f, al, m, alloc, ⟨-, ends⟩ | ⟨i, unused, ends⟩⟩
  · rw [ends] at created
    cases created
  · rw [ends] at created
    cases created
  · rw [ends] at created
    obtain ⟨same, rfl⟩ := Prod.mk.inj created
    obtain rfl := AddressSpace.slot.inj (Except.ok.inj same)
    have vacant : ¬ Used s₀.toMachine i := by simp [Used, unused]
    have apart : root ≠ f := fun same => split.not_given alloc (same ▸ split.side.top)
    have top : (Function.update s₀.asSlots i (newSlot i f) i).space.pml4Phys = f := by
      simp [newSlot]
    refine ⟨?_, .alloc split.inv.trees.valid alloc rfl, split.words_newRoot alloc split.side.top,
      ?_, ?_⟩
    · simp [Used, newSlot]
    · intro j high
      rw [Machine.rootOf, top]
      exact readEntry_newRoot split.inv.trees.valid alloc (split.side.isFrame split.side.top)
        apart high
    · intro path t table
      have plant := newRoot_plant vacant (split.read_newRoot alloc)
      rw [HasTable, used_newSlot rfl] at table
      rcases plant.at_iff.mp table with old | ⟨-, -, rfl⟩
      · exact absurd old.live vacant
      · exact (alloc_some split.inv.trees.valid alloc).2.2.1

/-! ### A space and the frames allocated for it -/

/-- A created space after calls on it, against the state before its creation. -/
structure SpaceGrown (reserved : PhysAddr → Prop) (root : PhysAddr) (a : Fin maxAddressSpaces)
    (s₀ s : Sys (Recorded A)) : Prop where
  split : ∃ level, SplitInv reserved root level s
  used : Used s.toMachine a
  hands : Hands s₀ s
  tables : ∀ {path t}, HasTable (Used s.toMachine) s.toMachine a path t → ¬ Held s₀.ptAlloc t
  upper : ∀ i, kernelPml4Start ≤ i →
    readEntry s.mem (s.rootOf a) i = readEntry s.mem root i ∨
      present (readEntry s.mem root i) = false ∧
        ∃ f user, readEntry s.mem (s.rootOf a) i = tableEntry f user ∧ IsFrame f ∧
          ¬ Held s₀.ptAlloc f ∧ Held s.ptAlloc f
  foreign : ∀ {f}, ¬ Held s₀.ptAlloc f → Held s.ptAlloc f →
    ∀ j, present (readEntry s.mem root j) = true → readEntry s.mem root j &&& addrMask ≠ f

theorem SplitInv.spaceGrown {cpu : Cpu} {history : List Event}
    (split : SplitInv reserved root level s₀)
    (created : (addressSpaceNew cpu).exec s₀ = (.ok (.slot a), s₁))
    (run : Runs (SpaceCall a) s₁ history s) : SpaceGrown reserved root a s₀ s := by
  have born := split.born created
  have split₁ : SplitInv reserved root level s₁ := by
    have after := split.new cpu
    rw [created] at after
    exact after
  have inv := SpaceInv.run split₁ born.used run
  have kernel : ∀ i, readEntry s.mem root i = readEntry s₀.mem root i :=
    fun i => (inv.step.kernel i).trans (born.kernel i)
  refine ⟨inv.split, inv.used, born.hands.trans inv.hands, ?_, ?_, ?_⟩
  · intro path t table
    rw [used_congr inv.step.slots] at table
    rcases inv.step.tables table with early | free
    · exact born.tables early
    · exact fun held => free (born.hands.heldMono t held)
  · intro i high
    have entry := inv.step.upper i high
    rw [born.upper i high, ← kernel i] at entry
    rw [inv.step.rootOf]
    rcases entry with same | ⟨absent, f, user, linked, frame, free, held⟩
    · exact Or.inl same
    · exact Or.inr ⟨absent, f, user, linked, frame, fun early => free (born.hands.heldMono f early),
        held⟩
  · -- what the kernel's PML4 points to was there before
    rintro f free held j isPresent rfl
    obtain ⟨level', split'⟩ := inv.split
    rw [kernel] at isPresent free held
    have old := split.side.below (by decide) (Or.inl split.side.top) ⟨isPresent, Or.inl rfl⟩
    rcases split.side.safe old with isReserved | early
    · exact split'.spares.held held isReserved
    · exact free early

/-- The frames passed to `free_frame_4k` are the PML4 and the frames handed out since `s₀` that
are tables of the space and not of the kernel, each of them once. -/
structure FreesExactly (root : PhysAddr) (a : Fin maxAddressSpaces) (s₀ s : Sys (Recorded A)) :
    Prop where
  passed : (addressSpaceDestroy (.slot a) s).ptAlloc =
    (destroyedFrames s.mem (s.rootOf a)).foldl freeFrame4k s.ptAlloc
  once : (destroyedFrames s.mem (s.rootOf a)).Nodup
  frames : ∀ t, t ∈ destroyedFrames s.mem (s.rootOf a) ↔
    t = s.rootOf a ∨
      some t ∈ answersDuring s₀ s ∧ IsTable s.mem (s.rootOf a) t ∧ ¬ IsTable s.mem root t

omit [PageTableFrameAlloc A] [LawfulFrameAlloc A] in
/-- The tables of a tree are tables for the processor. -/
theorem Trees.tableAt {live : Fin maxAddressSpaces → Prop} {k : Machine}
    {path : List (Fin entryCount)} {t : PhysAddr} (trees : Trees live k)
    (table : HasTable live k a path t) : TableAt k.mem (k.rootOf a) (4 - path.length) t := by
  induction path using List.reverseRecOn generalizing t with
  | nil =>
      obtain rfl : k.rootOf a = t := Option.some.inj table.reached
      exact .pml4
  | append_singleton path i inductionHypothesis =>
      obtain ⟨parent, above, slot⟩ := table.parent
      obtain ⟨isPresent, rfl⟩ := nextTable_eq_some.mp slot
      have entry := trees.entries above table.admitted isPresent
      have length := table.admitted.1
      have parentAt := inductionHypothesis above
      rw [List.length_append, List.length_singleton] at length ⊢
      cases path with
      | nil =>
          obtain rfl : k.rootOf a = parent := Option.some.inj above.reached
          exact .pdpt i isPresent
      | cons j path =>
          rw [List.length_cons] at length parentAt ⊢
          have up : 4 - (path.length + 1) = (1 - path.length) + 2 := by omega
          have down : 4 - (path.length + 1 + 1) = (1 - path.length) + 1 := by omega
          rw [up] at parentAt
          rw [down]
          apply TableAt.inner parentAt (by omega) i isPresent
          simp [isLarge, entry.small]

omit [PageTableFrameAlloc A] [LawfulFrameAlloc A] in
/-- Where the upper half has only the kernel's entries, a table is below the lower half or is
the kernel's. -/
theorem tableAt_shared {m : Mem} {top t : PhysAddr} {l : Nat}
    (shared : ∀ i, kernelPml4Start ≤ i → present (readEntry m top i) = true →
      readEntry m top i = readEntry m root i) (table : TableAt m top l t) :
    LowerTable m top l t ∨ TableAt m root l t := by
  induction table with
  | pml4 => exact Or.inl .pml4
  | pdpt i entry =>
      rcases lt_or_ge i kernelPml4Start with lower | high
      · exact Or.inl (.pdpt i lower entry)
      · have same := shared i high entry
        rw [same] at entry ⊢
        exact Or.inr (.pdpt i entry)
  | inner _ bounded i entry small inductionHypothesis =>
      rcases inductionHypothesis with below | kernels
      · exact Or.inl (.inner below bounded i entry (Bool.eq_false_iff.mpr small))
      · exact Or.inr (.inner kernels bounded i entry small)

section

variable (grown : SpaceGrown reserved root a s₀ s)
include grown

theorem SpaceGrown.passed : (addressSpaceDestroy (.slot a) s).ptAlloc =
    (destroyedFrames s.mem (s.rootOf a)).foldl freeFrame4k s.ptAlloc := by
  obtain ⟨level, split⟩ := grown.split
  exact (addressSpaceDestroy_spec split.inv.trees split.inv.handles grown.used grown.used).freed

/-- If the upper half has only the kernel's entries, nothing is forgotten. -/
theorem SpaceGrown.freesExactly
    (shared : ∀ i, kernelPml4Start ≤ i → present (readEntry s.mem (s.rootOf a) i) = true →
      present (readEntry s.mem root i) = true) : FreesExactly root a s₀ s := by
  obtain ⟨level, split⟩ := grown.split
  have trees := split.inv.trees
  have same : ∀ i, kernelPml4Start ≤ i → present (readEntry s.mem (s.rootOf a) i) = true →
      readEntry s.mem (s.rootOf a) i = readEntry s.mem root i := by
    intro i high isPresent
    rcases grown.upper i high with same | ⟨absent, -⟩
    · exact same
    · rw [shared i high isPresent] at absent
      cases absent
  refine ⟨grown.passed, trees.destroyedFrames_nodup grown.used, fun t => ?_⟩
  rw [trees.mem_destroyedFrames grown.used]
  constructor
  · rintro ⟨path, table⟩
    refine Or.inr ⟨?_, ⟨_, trees.tableAt table⟩, ?_⟩
    · rw [grown.hands.mem_answersDuring]
      exact ⟨grown.tables table, trees.held table⟩
    · rintro ⟨l, kernels⟩
      exact split.side.apart (split.kernel_tableAt kernels) table
  · rintro (rfl | ⟨-, ⟨l, table⟩, notKernels⟩)
    · exact ⟨[], .root grown.used⟩
    · rcases tableAt_shared same table with lower | kernels
      · obtain ⟨path, -, own⟩ := lowerTable_hasTable grown.used lower
        exact ⟨path, own⟩
      · exact absurd ⟨l, kernels⟩ notKernels

/-- A PDPT in the upper half that the kernel does not have stays allocated. -/
theorem SpaceGrown.forgotten {i : Fin entryCount} (high : kernelPml4Start ≤ i)
    (own : present (readEntry s.mem (s.rootOf a) i) = true)
    (missing : present (readEntry s.mem root i) = false) :
    ∃ t, some t ∈ answersDuring s₀ s ∧ IsTable s.mem (s.rootOf a) t ∧ ¬ IsTable s.mem root t ∧
      t ∉ destroyedFrames s.mem (s.rootOf a) := by
  obtain ⟨level, split⟩ := grown.split
  rcases grown.upper i high with same | ⟨-, f, user, entry, frame, free, held⟩
  · rw [same, missing] at own
    cases own
  have target : readEntry s.mem (s.rootOf a) i &&& addrMask = f := by
    rw [entry, tableEntry_and_addrMask]
    exact frame
  have side : level 3 f := by
    rw [← target]
    exact split.side.below (by decide) (Or.inr ⟨rfl, high, a, grown.used, rfl⟩)
      ⟨own, Or.inl rfl⟩
  refine ⟨f, (grown.hands.mem_answersDuring f).mpr ⟨free, held⟩, ⟨3, ?_⟩, ?_, ?_⟩
  · rw [← target]
    exact .pdpt i own
  · rintro ⟨l, kernels⟩
    -- as a table of level 3 it would hang in the kernel's PML4
    obtain rfl := split.side.unique (split.kernel_tableAt kernels) side
    cases kernels with
    | pdpt j isPresent => exact grown.foreign free held j isPresent rfl
    | inner _ bounded => omega
  · rw [split.inv.trees.mem_destroyedFrames grown.used]
    rintro ⟨path, table⟩
    exact split.side.apart side table

end

theorem AdoptedKernel.splitInv {start : Sys A} (adopted : AdoptedKernel start root)
    (spares : Spares (IsTable start.mem root) start.ptAlloc) :
    SplitInv (IsTable start.mem root) root (TableAt start.mem root) start := by
  have fresh : NoSpaces start :=
    ⟨adopted.valid, adopted.unused, fun a known => by simp [adopted.handle] at known⟩
  exact fresh.splitInv rfl ⟨adopted.handle, adopted.kas⟩ adopted.rootFrame spares adopted.oneLevel

/-- For a space created in any state that safe calls reach after boot, with kernel tables the
allocator keeps off, each at one level: after any calls on the space, outside large pages, its
destruction frees what it should exactly if its PML4 has no upper-half entry that the kernel's
PML4 lacks. -/
theorem freesExactly_iff {start : Sys (Recorded A)} {cpu : Cpu} {before history : List Event}
    (adopted : AdoptedKernel start root)
    (spares : Spares (IsTable start.mem root) start.ptAlloc)
    (earlier : Runs SafeCall start before s₀)
    (created : (addressSpaceNew cpu).exec s₀ = (.ok (.slot a), s₁))
    (run : Runs (SpaceCall a) s₁ history s) :
    FreesExactly root a s₀ s ↔
      ∀ i, kernelPml4Start ≤ i → present (readEntry s.mem (s.rootOf a) i) = true →
        present (readEntry s.mem root i) = true := by
  obtain ⟨level, split⟩ := (adopted.splitInv spares).safeRun earlier
  have grown := split.spaceGrown created run
  constructor
  · intro frees i high own
    by_contra missing
    obtain ⟨t, given, table, notKernels, forgotten⟩ :=
      grown.forgotten high own (Bool.eq_false_iff.mpr missing)
    exact forgotten ((frees.frames t).mpr (Or.inr ⟨given, table, notKernels⟩))
  · exact grown.freesExactly

end

/-! ### A space of the adopted kernel -/

/-- The bump allocator keeps off the kernel's tables. -/
theorem spares_adoptedSys :
    Spares (IsTable adoptedSys.mem 0x100000) adoptedSys.ptAlloc := by
  rintro al - f ⟨n, -, bound, rfl⟩ ⟨l, table⟩
  have low := toNat_bumpFrame bound
  have outside : ∀ t : PhysAddr, t = 0x100000 ∨ t = 0x101000 → 0x100000 ≤ t.toNat := by
    rintro t (rfl | rfl) <;> decide
  have high := outside (bumpFrame n) ((table_reclaimMem table).imp And.right And.right)
  omega

theorem inheritedSys_created :
    (addressSpaceNew bootCpu).exec adoptedSys = (.ok (.slot 0), inheritedSys) := rfl

theorem maxAddressSpaces_pos : 0 < maxAddressSpaces := Nat.zero_lt_succ _

/-- The space with a page in its lower half, and one in the upper half below the kernel's
PDPT. -/
def sharedSpace : Sys (Recorded BumpAlloc) :=
  ((Call.map (.slot ⟨0, maxAddressSpaces_pos⟩) 0xffff800040000000 0x8000 .read).exec
    ((Call.map (.slot ⟨0, maxAddressSpaces_pos⟩) 0x400000 0x7000 .user).exec inheritedSys).2).2

theorem freesExactly_sharedSpace : FreesExactly 0x100000 0 adoptedSys sharedSpace := by
  have none : Runs (SpaceCall 0) inheritedSys [] inheritedSys := .start
  have lower := none.extend (.map (.slot 0) 0x400000 0x7000 .user)
    ⟨_, ⟨rfl, rfl⟩, by decide +kernel⟩
  have run : Runs (SpaceCall 0) inheritedSys _ sharedSpace :=
    lower.extend (.map (.slot 0) 0xffff800040000000 0x8000 .read)
      ⟨_, ⟨rfl, rfl⟩, by decide +kernel⟩
  exact (freesExactly_iff adoptedKernel_adoptedSys spares_adoptedSys .start inheritedSys_created
    run).mpr (by decide +kernel)

/-- The space with a page in a part of the upper half for which the kernel has no PDPT. -/
def privateSpace : Sys (Recorded BumpAlloc) :=
  ((Call.map (.slot ⟨0, maxAddressSpaces_pos⟩) 0xffff900000000000 0x7000 .read).exec inheritedSys).2

/-- Three tables were allocated for the page; only the PML4 is freed. -/
theorem private_tables_kept :
    answersDuring adoptedSys privateSpace =
        [some 0x1000, some 0x2000, some 0x3000, some 0x4000] ∧
      destroyedFrames privateSpace.mem (privateSpace.rootOf 0) = [0x1000] ∧
      ¬ FreesExactly 0x100000 0 adoptedSys privateSpace := by
  have none : Runs (SpaceCall 0) inheritedSys [] inheritedSys := .start
  have run : Runs (SpaceCall 0) inheritedSys _ privateSpace :=
    none.extend (.map (.slot 0) 0xffff900000000000 0x7000 .read)
      ⟨_, ⟨rfl, rfl⟩, by decide +kernel⟩
  have grown := (adoptedKernel_adoptedSys.splitInv spares_adoptedSys).spaceGrown
    inheritedSys_created run
  have high : kernelPml4Start ≤ pml4Index 0xffff900000000000 := by decide
  have own : present (readEntry privateSpace.mem (privateSpace.rootOf 0)
      (pml4Index 0xffff900000000000)) = true := by decide +kernel
  have missing : present (readEntry privateSpace.mem 0x100000
      (pml4Index 0xffff900000000000)) = false := by decide +kernel
  refine ⟨by decide +kernel, by decide +kernel, fun frees => ?_⟩
  obtain ⟨t, given, table, notKernels, forgotten⟩ := grown.forgotten high own missing
  exact forgotten ((frees.frames t).mpr (Or.inr ⟨given, table, notKernels⟩))

end RincOs
