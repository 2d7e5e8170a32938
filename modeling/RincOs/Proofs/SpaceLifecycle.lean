/-
Module: RincOs.Proofs.SpaceLifecycle
Purpose: Creation and destruction of address spaces.  Creation plants an empty
  tree; destruction frees every table of one tree exactly once and nothing else.
Trusted boundary: none
Main exports:
  NewEnds, TreesInv.newSpace, addressSpaceNew_spec, Trees.destroyedFrames_nodup,
  Trees.mem_destroyedFrames, addressSpaceDestroy_spec
-/
import RincOs.Library.ForestPostorder
import RincOs.Proofs.LeafEntries

namespace RincOs

open RadixForest LawfulFrameAlloc

variable {A : Type}

/-! ### The memory of a new PML4 -/

theorem entryAddr_sub (f : PhysAddr) (i : Fin entryCount) :
    entryAddr f i - f = BitVec.ofNat 64 (8 * i.val) := by
  rw [entryAddr, BitVec.add_comm, BitVec.add_sub_cancel]

theorem newRootMem_outside {m : Mem} {kernelRoot f : PhysAddr} {x : Word}
    (outside : ¬ InFrame f x) : newRootMem m kernelRoot f x = m x := by
  rw [newRootMem, copyEntries, if_neg (fun both => outside both.1), zeroFrame,
    if_neg outside]

/-- The copied range starts at the first kernel slot. -/
theorem kernelSlot_le_iff (f : PhysAddr) (i : Fin entryCount) :
    BitVec.ofNat 64 (8 * kernelPml4Start.val) ≤ entryAddr f i - f ↔
      kernelPml4Start ≤ i := by
  have index : i.val < 512 := i.isLt
  have start : kernelPml4Start.val = 256 := rfl
  rw [entryAddr_sub, BitVec.le_def, Fin.le_def, BitVec.toNat_ofNat, BitVec.toNat_ofNat]
  omega

theorem readEntry_newRootMem_lower (m : Mem) (kernelRoot f : PhysAddr)
    {i : Fin entryCount} (lower : i < kernelPml4Start) :
    readEntry (newRootMem m kernelRoot f) f i = 0 := by
  rw [readEntry, newRootMem, copyEntries, if_neg]
  · exact readEntry_zeroFrame_self m f i
  · rw [kernelSlot_le_iff]
    exact fun both => absurd both.2 (not_le.mpr lower)

theorem readEntry_newRootMem_upper (m : Mem) (kernelRoot f : PhysAddr)
    {i : Fin entryCount} (upper : kernelPml4Start ≤ i) :
    readEntry (newRootMem m kernelRoot f) f i = readEntry (zeroFrame m f) kernelRoot i := by
  rw [readEntry, newRootMem, copyEntries,
    if_pos ⟨inFrame_entryAddr f i, (kernelSlot_le_iff f i).mpr upper⟩, entryAddr_sub]
  rfl

/-! ### Creation -/

section

variable [PageTableFrameAlloc A] [LawfulFrameAlloc A]
variable {live : Fin maxAddressSpaces → Prop} {s s' : Sys A}

/-- Memory changes only in frames that were handed out between the states. -/
def WritesFresh (s s' : Sys A) : Prop :=
  ∀ x, s'.mem x = s.mem x ∨ ∃ t, IsFrame t ∧ InFrame t x ∧
    ¬ Held s.ptAlloc t ∧ Held s'.ptAlloc t

/-- Writes to a frame nobody held do not reach a table. -/
theorem TreesInv.read_outside {f : PhysAddr} {m : Mem} (inv : TreesInv live s)
    (newFrame : IsFrame f) (free : ¬ Held s.ptAlloc f)
    (outside : ∀ x, ¬ InFrame f x → m x = s.mem x)
    {b : Fin maxAddressSpaces} {path : List (Fin entryCount)} {t : PhysAddr}
    (table : HasTable live s.toMachine b path t) (i : Fin entryCount) :
    readEntry m t i = readEntry s.mem t i := by
  refine outside _ fun inside => free ?_
  rw [(inFrame_entryAddr_iff (inv.isFrame table) newFrame i).mp inside]
  exact inv.held table

/-- The ways `address_space_new` can end.  In the last case `i` is the slot of
the new space, whose tree is a PML4 with an empty lower half. -/
inductive NewEnds (live : Fin maxAddressSpaces → Prop) (s : Sys A) :
    Except MapError AddressSpace × Sys A → Prop where
  | invalidArgs {s' : Sys A} (adopts : Adopts s s') :
      NewEnds live s (.error .invalidArgs, s')
  | outOfMemory {s' : Sys A} (inv : TreesInv live s')
      (keeps : Keeps live s.toMachine s'.toMachine) (fresh : WritesFresh s s')
      (heldMono : ∀ {g}, Held s.ptAlloc g → Held s'.ptAlloc g)
      (slots : s'.asSlots = s.asSlots) (nxe : s'.nxeEnabled = s.nxeEnabled)
      (handle : s'.kasHandle = s.kasHandle ∨ s'.kasHandle = some .kas) :
      NewEnds live s (.error .outOfMemory, s')
  | ok {s' : Sys A} {i : Fin maxAddressSpaces} {pml4 : PhysAddr}
      (free : (s.asSlots i).used = false)
      (inv : TreesInv (fun b => live b ∨ b = i) s')
      (keeps : Keeps live s.toMachine s'.toMachine) (fresh : WritesFresh s s')
      (heldMono : ∀ {g}, Held s.ptAlloc g → Held s'.ptAlloc g)
      (empty : ∀ j < kernelPml4Start, readEntry s'.mem pml4 j = 0)
      (slots : s'.asSlots = Function.update s.asSlots i (newSlot i pml4))
      (nxe : s'.nxeEnabled = s.nxeEnabled)
      (handle : s'.kasHandle = s.kasHandle ∨ s'.kasHandle = some .kas) :
      NewEnds live s (.ok (.slot i), s')

omit [PageTableFrameAlloc A] [LawfulFrameAlloc A] in
/-- A filled PML4 in a free slot is a new tree with nothing below its root. -/
theorem newRoot_plant {f kernelRoot : PhysAddr} {m : Mem} {i : Fin maxAddressSpaces}
    (vacant : ¬ live i)
    (read : ∀ {b path t}, HasTable live s.toMachine b path t → ∀ j,
      readEntry (newRootMem m kernelRoot f) t j = readEntry s.mem t j) :
    (lowerLayout live s.asSlots).Plant
      (lowerLayout (fun b => live b ∨ b = i) (Function.update s.asSlots i (newSlot i f)))
      (nextTable s.mem) (nextTable (newRootMem m kernelRoot f)) i f where
  notLive := vacant
  live_iff _ := Iff.rfl
  root_new := by simp [lowerLayout, newSlot]
  root_old {b} alive := by
    have old : b ≠ i := fun same => vacant (same ▸ alive)
    simp [lowerLayout, old]
  admits_eq := rfl
  empty j admitted := nextTable_eq_none.mpr (by
    rw [readEntry_newRootMem_lower _ _ _ (admitted.2 j (by simp)), present_zero])
  elsewhere table _ := nextTable_congr (read table _)

/-- The invariant with the new space among the live ones. -/
theorem TreesInv.newSpace {f kernelRoot : PhysAddr} {m : Mem} {al : A}
    {i : Fin maxAddressSpaces} (inv : TreesInv live s) (vacant : ¬ live i)
    (alloc : allocFrame4k s.ptAlloc s.mem = (some f, al, m))
    (read : ∀ {b path t}, HasTable live s.toMachine b path t → ∀ j,
      readEntry (newRootMem m kernelRoot f) t j = readEntry s.mem t j) :
    TreesInv (fun b => live b ∨ b = i)
      { s with
        ptAlloc := al
        mem := newRootMem m kernelRoot f
        asSlots := Function.update s.asSlots i (newSlot i f) } := by
  obtain ⟨valid, newFrame, free, held, -⟩ := alloc_some inv.valid alloc
  have plant := newRoot_plant vacant read
  refine
    { roots := ?roots
      forest := plant.forest inv.forest fun other => free (inv.held other)
      entries := ?entries
      valid := valid
      held := ?held }
  case roots =>
    rintro b (alive | rfl)
    · have old : b ≠ i := fun same => vacant (same ▸ alive)
      simpa [old] using inv.roots alive
    · simpa [newSlot] using newFrame
  case entries =>
    intro b path t j after admitted isPresent
    rcases plant.at_iff.mp after with before | ⟨rfl, rfl, rfl⟩
    · rw [read before] at isPresent ⊢
      exact inv.entries before admitted isPresent
    · rw [readEntry_newRootMem_lower _ _ _ (admitted.2 j (by simp)),
        present_zero] at isPresent
      cases isPresent
  case held =>
    intro b path t after
    rcases plant.at_iff.mp after with before | ⟨-, -, rfl⟩
    · exact (held t).mpr (Or.inl (inv.held before))
    · exact (held t).mpr (Or.inr rfl)

theorem newFromKernel_spec (kernelRoot : PhysAddr) (inv : TreesInv live s)
    (used : ∀ {b}, live b → (s.asSlots b).used = true) :
    NewEnds live s ((newFromKernel kernelRoot).exec s) := by
  rcases newFromKernel_cases kernelRoot s with
    ⟨al, m, alloc, done⟩ | ⟨f, al, m, alloc, ends⟩
  · rw [done]
    obtain ⟨valid, rfl, held⟩ := alloc_none inv.valid alloc
    exact .outOfMemory
      { toTrees := ⟨inv.roots, inv.forest, inv.entries⟩
        valid := valid
        held := fun table => (held _).mpr (inv.held table) }
      ⟨fun _ => rfl, fun _ _ => rfl⟩ (fun _ => Or.inl rfl)
      (fun {g} early => (held g).mpr early) rfl rfl (Or.inl rfl)
  · obtain ⟨valid, newFrame, free, held, outsideAlloc⟩ := alloc_some inv.valid alloc
    have outside : ∀ x, ¬ InFrame f x → newRootMem m kernelRoot f x = s.mem x :=
      fun x out => (newRootMem_outside out).trans (outsideAlloc x out)
    have read : ∀ {b path t}, HasTable live s.toMachine b path t → ∀ j,
        readEntry (newRootMem m kernelRoot f) t j = readEntry s.mem t j :=
      fun table j => inv.read_outside newFrame free outside table j
    have heldMono : ∀ {g}, Held s.ptAlloc g → Held al g :=
      fun {g} early => (held g).mpr (Or.inl early)
    have fresh : ∀ x, newRootMem m kernelRoot f x = s.mem x ∨
        ∃ t, IsFrame t ∧ InFrame t x ∧ ¬ Held s.ptAlloc t ∧ Held al t := by
      intro x
      by_cases inside : InFrame f x
      · exact Or.inr ⟨f, newFrame, inside, free, (held f).mpr (Or.inr rfl)⟩
      · exact Or.inl (outside x inside)
    rcases ends with ⟨-, done⟩ | ⟨i, unused, done⟩
    · rw [done]
      have keeps : Keeps live s.toMachine
          { s.toMachine with mem := newRootMem m kernelRoot f } :=
        ⟨fun _ => rfl, read⟩
      exact .outOfMemory
        { toTrees := keeps.trees inv.toTrees
          valid := valid
          held := fun table => heldMono (inv.held (keeps.hasTable_iff.mp table)) }
        ⟨fun _ => rfl, read⟩ fresh heldMono rfl rfl (Or.inl rfl)
    · rw [done]
      have vacant : ¬ live i := fun alive => by simp [used alive] at unused
      have old : ∀ {b}, live b → b ≠ i := fun {b} alive same => vacant (same ▸ alive)
      exact .ok unused (inv.newSpace vacant alloc read)
        ⟨fun alive => by simp [old alive], read⟩ fresh heldMono
        (fun j lower => readEntry_newRootMem_lower _ _ _ lower) rfl rfl (Or.inl rfl)

omit [PageTableFrameAlloc A] [LawfulFrameAlloc A] in
theorem Adopts.keeps {s0 : Sys A} (adopts : Adopts s s0) :
    Keeps live s.toMachine s0.toMachine :=
  ⟨fun _ => by rw [adopts.asSlots], fun _ _ => by rw [adopts.mem]⟩

theorem Adopts.inv {s0 : Sys A} (adopts : Adopts s s0) (inv : TreesInv live s) :
    TreesInv live s0 where
  toTrees := adopts.keeps.trees inv.toTrees
  valid := adopts.ptAlloc ▸ inv.valid
  held table := adopts.ptAlloc ▸ inv.held (adopts.keeps.hasTable_iff.mp table)

theorem Adopts.writesFresh {s0 : Sys A} (adopts : Adopts s s0)
    (fresh : WritesFresh s0 s') : WritesFresh s s' := by
  rw [WritesFresh, ← adopts.mem, ← adopts.ptAlloc]
  exact fresh

theorem addressSpaceNew_spec (cpu : Cpu) (inv : TreesInv live s)
    (used : ∀ {b}, live b → (s.asSlots b).used = true) :
    NewEnds live s ((addressSpaceNew cpu).exec s) := by
  obtain ⟨s0, adopts, done | ⟨kernel, -, done⟩⟩ := addressSpaceNew_cases cpu s
  · rw [done]
    exact .invalidArgs adopts
  · rw [done]
    -- adopting the kernel space changed nothing the outcome mentions
    have ends := newFromKernel_spec kernel.pml4Phys (adopts.inv inv) fun {b} alive => by
      rw [adopts.asSlots]
      exact used alive
    have handled : ∀ {handle : Option AddressSpace},
        handle = s0.kasHandle ∨ handle = some .kas →
          handle = s.kasHandle ∨ handle = some .kas := by
      rintro handle (same | new)
      · rw [same]
        exact adopts.handle
      · exact Or.inr new
    generalize (newFromKernel kernel.pml4Phys).exec s0 = outcome at ends ⊢
    cases ends with
    | invalidArgs more => exact .invalidArgs (adopts.trans more)
    | outOfMemory inv' keeps fresh heldMono slots nxe handle =>
        exact .outOfMemory inv' (adopts.keeps.trans keeps) (adopts.writesFresh fresh)
          (fun {g} early => heldMono (adopts.ptAlloc ▸ early))
          (slots.trans adopts.asSlots) (nxe.trans adopts.nxeEnabled) (handled handle)
    | ok free inv' keeps fresh heldMono empty slots nxe handle =>
        exact .ok (adopts.asSlots ▸ free) inv' (adopts.keeps.trans keeps)
          (adopts.writesFresh fresh) (fun {g} early => heldMono (adopts.ptAlloc ▸ early))
          empty (adopts.asSlots ▸ slots) (nxe.trans adopts.nxeEnabled) (handled handle)

end

/-! ### The tables a destruction visits -/

/-- The table `address_space_destroy` descends into at an entry. -/
def nextSmall (m : Mem) (t : PhysAddr) (i : Fin entryCount) : Option PhysAddr :=
  if !present (readEntry m t i) then none
  else if readEntry m t i &&& ptePs != 0 then none
  else some (readEntry m t i &&& addrMask)

/-- The slots `address_space_destroy` looks at: of the PML4 the lower half, of
the other tables all. -/
def visitedSlots (depth : Nat) : List (Fin entryCount) :=
  if depth = 2 then (List.finRange entryCount).filter (· < kernelPml4Start)
  else List.finRange entryCount

theorem freedBelow_eq (m : Mem) (table : PhysAddr) (indices : List (Fin entryCount))
    (body : PhysAddr → List PhysAddr) :
    freedBelow m table indices body =
      indices.flatMap fun i => (nextSmall m table i).elim [] body := by
  rw [freedBelow]
  congr 1
  funext i
  dsimp only [nextSmall]
  split
  · rfl
  · split <;> rfl

theorem destroyedFrames_eq (m : Mem) (root : PhysAddr) :
    destroyedFrames m root = postorder (nextSmall m) visitedSlots 3 root := by
  simp only [destroyedFrames, freedBelow_eq, postorder, visitedSlots, if_true,
    OfNat.one_ne_ofNat, OfNat.zero_ne_ofNat, if_false]

theorem fits_visitedSlots_iff (path : List (Fin entryCount)) :
    Fits visitedSlots 3 path ↔ LowerPath 3 path := by
  rcases path with _ | ⟨i, _ | ⟨j, _ | ⟨k, _ | ⟨l, rest⟩⟩⟩⟩ <;>
    simp [Fits, visitedSlots, LowerPath]

section

variable {live : Fin maxAddressSpaces → Prop} {k : Machine} {a : Fin maxAddressSpaces}

/-- None of the tables is skipped: their entries have PS clear. -/
theorem Trees.nextSmall_eq (trees : Trees live k) {path : List (Fin entryCount)}
    {t : PhysAddr} {i : Fin entryCount} (table : HasTable live k a path t)
    (admitted : LowerPath 3 (path ++ [i])) : nextSmall k.mem t i = nextTable k.mem t i := by
  rw [nextSmall, nextTable]
  cases isPresent : present (readEntry k.mem t i) with
  | false => rfl
  | true => simp [(trees.entries table admitted isPresent).small]

theorem Trees.at_nextSmall (trees : Trees live k) {path : List (Fin entryCount)}
    {t : PhysAddr} :
    (lowerLayout live k.asSlots).At (nextSmall k.mem) a path t ↔ HasTable live k a path t :=
  Layout.at_congr fun table admitted => trees.nextSmall_eq table admitted

/-- `address_space_destroy` frees exactly the tables of the space, -/
theorem Trees.mem_destroyedFrames (trees : Trees live k) (alive : live a) {t : PhysAddr} :
    t ∈ destroyedFrames k.mem (k.rootOf a) ↔ ∃ path, HasTable live k a path t := by
  rw [destroyedFrames_eq, mem_postorder]
  constructor
  · rintro ⟨path, fits, reached⟩
    exact ⟨path, trees.at_nextSmall.mp
      ⟨alive, (fits_visitedSlots_iff path).mp fits, reached⟩⟩
  · rintro ⟨path, table⟩
    have small := trees.at_nextSmall.mpr table
    exact ⟨path, (fits_visitedSlots_iff path).mpr small.admitted, small.reached⟩

/-- each of them once. -/
theorem Trees.destroyedFrames_nodup (trees : Trees live k) (alive : live a) :
    (destroyedFrames k.mem (k.rootOf a)).Nodup := by
  rw [destroyedFrames_eq]
  have forest : (lowerLayout live k.asSlots).Forest (nextSmall k.mem) :=
    fun one two => trees.forest (trees.at_nextSmall.mp one) (trees.at_nextSmall.mp two)
  refine Layout.postorder_nodup forest ?_ (Layout.At.root alive) fun rest fits => ?_
  · intro depth
    rw [visitedSlots]
    split
    · exact (List.nodup_finRange entryCount).filter _
    · exact List.nodup_finRange entryCount
  · exact (fits_visitedSlots_iff rest).mp fits

end

/-! ### Destruction -/

/-- Handles point at the slot they are stored in, and the kernel handle at none. -/
structure HandlesOk (k : Machine) : Prop where
  slot : ∀ {i}, (k.asSlots i).used = true → (k.asSlots i).handle = some (.slot i)
  kernel : ∀ i, k.kasHandle ≠ some (.slot i)

/-- `free_slot` releases the slot of its handle. -/
theorem freeSlot_eq {k : Machine} (handles : HandlesOk k) {a : Fin maxAddressSpaces}
    (used : (k.asSlots a).used = true) :
    freeSlot k (.slot a) =
      { k with
        asSlots := Function.update k.asSlots a
          { k.asSlots a with used := false, space := ⟨0⟩ } } := by
  have hit : ∀ i, ((k.asSlots i).used && (k.asSlots i).handle == some (.slot a)) = true →
      i = a := by
    intro i found
    simp only [Bool.and_eq_true, beq_iff_eq] at found
    have own := handles.slot found.1
    rw [found.2] at own
    simpa using own.symm
  rw [freeSlot]
  cases search : (List.finRange maxAddressSpaces).find?
      fun i => (k.asSlots i).used && (k.asSlots i).handle == some (.slot a) with
  | none =>
      have missed := List.find?_eq_none.mp search a (List.mem_finRange a)
      simp [used, handles.slot used] at missed
  | some i =>
      have found := List.find?_some search
      obtain rfl := hit i found
      rfl

section

variable [PageTableFrameAlloc A] [LawfulFrameAlloc A]
variable {live : Fin maxAddressSpaces → Prop} {s : Sys A} {a : Fin maxAddressSpaces}

/-- Freeing held frames, each once, releases at most these. -/
theorem free_all {al : A} (frames : List PhysAddr) (valid : Valid al)
    (nodup : frames.Nodup) (held : ∀ f ∈ frames, Held al f) :
    Valid (frames.foldl freeFrame4k al) ∧
      (∀ g, g ∉ frames → Held al g → Held (frames.foldl freeFrame4k al) g) ∧
      ∀ g, Held (frames.foldl freeFrame4k al) g → Held al g := by
  induction frames generalizing al with
  | nil => exact ⟨valid, fun _ _ still => still, fun _ still => still⟩
  | cons f frames inductionHypothesis =>
      obtain ⟨valid', kept, only⟩ := free valid (held f List.mem_cons_self)
      obtain ⟨fresh, nodup⟩ := List.nodup_cons.mp nodup
      obtain ⟨valid'', keptAll, onlyAll⟩ := inductionHypothesis valid' nodup
        fun g inside => kept g (fun same => fresh (same ▸ inside)) (held g (.tail _ inside))
      refine ⟨valid'', fun g outside still => ?_, fun g still => only g (onlyAll g still)⟩
      rw [List.mem_cons, not_or] at outside
      exact keptAll g outside.2 (kept g outside.1 still)

/-- What `address_space_destroy` does to a live space: the trees of the others
stay, and the frames of its own are given back. -/
structure Destroys (live : Fin maxAddressSpaces → Prop) (a : Fin maxAddressSpaces)
    (s s' : Sys A) : Prop where
  inv : TreesInv (fun b => live b ∧ b ≠ a) s'
  keeps : Keeps (fun b => live b ∧ b ≠ a) s.toMachine s'.toMachine
  held : ∀ {g}, Held s'.ptAlloc g → Held s.ptAlloc g
  machine : s'.toMachine =
    { s.toMachine with
      asSlots := Function.update s.asSlots a
        { s.asSlots a with used := false, space := ⟨0⟩ } }
  freed : s'.ptAlloc =
    (destroyedFrames s.mem (s.rootOf a)).foldl freeFrame4k s.ptAlloc

theorem addressSpaceDestroy_spec (inv : TreesInv live s) (handles : HandlesOk s.toMachine)
    (alive : live a) (used : (s.asSlots a).used = true) :
    Destroys live a s (addressSpaceDestroy (.slot a) s) := by
  have root : (s.asX86 (.slot a)).pml4Phys = s.rootOf a := rfl
  rw [addressSpaceDestroy, if_neg (by simpa using handles.kernel a),
    freeSlot_eq handles used, root]
  obtain ⟨frames, listed⟩ : ∃ frames, destroyedFrames s.mem (s.rootOf a) = frames :=
    ⟨_, rfl⟩
  have tables : ∀ t, t ∈ frames ↔ ∃ path, HasTable live s.toMachine a path t :=
    fun t => listed ▸ inv.mem_destroyedFrames alive
  have nodup : frames.Nodup := listed ▸ inv.destroyedFrames_nodup alive
  obtain ⟨valid, kept, only⟩ := free_all frames inv.valid nodup fun f inside => by
    obtain ⟨path, table⟩ := (tables f).mp inside
    exact inv.held table
  have keeps : Keeps (fun b => live b ∧ b ≠ a) s.toMachine
      { s.toMachine with
        asSlots := Function.update s.asSlots a
          { s.asSlots a with used := false, space := ⟨0⟩ } } :=
    ⟨fun other => by simp [other.2], fun _ _ => rfl⟩
  rw [listed]
  refine ⟨⟨keeps.trees (inv.mono And.left), valid, ?_⟩, keeps, fun {g} => only g, rfl,
    by rw [listed]⟩
  intro b path t table
  have old := keeps.hasTable_iff.mp table
  refine kept t (fun inside => ?_) (inv.held (HasTable.mono And.left old))
  -- a table of another space is not one of `a`
  obtain ⟨rest, own⟩ := (tables t).mp inside
  exact old.live.2 (inv.forest (HasTable.mono And.left old) own).1

end

end RincOs
