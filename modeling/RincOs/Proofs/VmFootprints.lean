/-
Module: RincOs.Proofs.VmFootprints
Purpose: The cells of the shared state and which of them each call of the VM
  service touches: without the lock those of its own tables, under the lock all
  but the tables of the other spaces.
Trusted boundary: none
Main exports:
  Cell, Shared.cells, cells_injective, pageFootprint, lockedFootprint,
  LocalFrameAlloc, tableWords, VmCall.footprint, program_confined
-/
import RincOs.Proofs.VmPrograms

namespace RincOs

open Interleaving RadixForest LawfulFrameAlloc

variable {C A α β : Type}

/-! ### Cells

The state the CPUs share is cut so finely that two calls on different spaces have no
cell in common: memory word by word, the slot table slot by slot, and for each CPU the
invalidations it has made.  A call is then described by the cells it reads and writes. -/

/-- The parts of the shared state that calls use independently of one another. -/
inductive Cell (C : Type) where
  | word (x : Word)
  | alloc
  | slot (i : Fin maxAddressSpaces)
  | kernel
  | current
  | nxe
  | log
  | tlb (c : C)

def Cell.Val (A : Type) : Cell C → Type
  | .word _ => Word
  | .alloc => A
  | .slot _ => AddressSpaceSlot
  | .kernel => Option X86AddressSpace × Option AddressSpace
  | .current => Fin maxCpus → Option AddressSpace
  | .nxe => Bool
  | .log => List TlbOp
  | .tlb _ => List TlbOp

def Shared.cells (s : Shared C A) : (l : Cell C) → l.Val A
  | .word x => s.sys.mem x
  | .alloc => s.sys.ptAlloc
  | .slot i => s.sys.asSlots i
  | .kernel => (s.sys.kas, s.sys.kasHandle)
  | .current => s.sys.currentPerCpu
  | .nxe => s.sys.nxeEnabled
  | .log => s.sys.tlbOps
  | .tlb c => s.tlb c

/-- The cells are the whole state. -/
theorem cells_injective : Function.Injective (Shared.cells : Shared C A → _) := by
  intro s s' same
  have word := fun x => congrFun same (.word x)
  have alloc := congrFun same .alloc
  have slot := fun i => congrFun same (.slot i)
  have kernel := congrFun same .kernel
  have current := congrFun same .current
  have nxe := congrFun same .nxe
  have log := congrFun same .log
  have tlb := fun c => congrFun same (.tlb c)
  obtain ⟨⟨⟨mem, nxeEnabled, kas, kasHandle, asSlots, currentPerCpu, tlbOps⟩, ptAlloc⟩, own⟩ := s
  obtain ⟨⟨⟨mem', nxeEnabled', kas', kasHandle', asSlots', currentPerCpu', tlbOps'⟩, ptAlloc'⟩,
    own'⟩ := s'
  obtain rfl : mem = mem' := funext word
  obtain rfl : ptAlloc = ptAlloc' := alloc
  obtain rfl : asSlots = asSlots' := funext slot
  obtain ⟨rfl, rfl⟩ : kas = kas' ∧ kasHandle = kasHandle' := Prod.mk.inj kernel
  obtain rfl : currentPerCpu = currentPerCpu' := current
  obtain rfl : nxeEnabled = nxeEnabled' := nxe
  obtain rfl : tlbOps = tlbOps' := log
  obtain rfl : own = own' := funext tlb
  rfl

/-! ### Calls without the lock

`unmap_4k`, `protect_4k` and `translate` take no lock.  They walk the tables of their own
space, so that the words of these tables and the slot that holds the root are all they
depend on. -/

/-- A call on space `a` that does not take the lock: it reads the slot of the space and
the words of its tables, and may write these words and flush the TLB of its CPU. -/
def pageFootprint (c : C) (a : Fin maxAddressSpaces) (words : Set Word) (writes : Bool) :
    Footprint (Cell C) where
  reads := {l | match l with
    | .word x => x ∈ words
    | .slot i => i = a
    | .nxe => True
    | .tlb d => d = c
    | _ => False}
  writes := {l | writes = true ∧ match l with
    | .word x => x ∈ words
    | .tlb d => d = c
    | _ => False}
  writes_subset := by
    rintro (x | _ | i | _ | _ | _ | _ | d) ⟨-, inside⟩
    all_goals first | exact inside | exact inside.elim

section

variable {c : C} {a : Fin maxAddressSpaces} {words : Set Word} {writes : Bool}
variable {s : Shared C A}

theorem readWord_page {table : PhysAddr} (i : Fin entryCount)
    (own : ∀ x, InFrame table x → x ∈ words) :
    Confined Shared.cells (pageFootprint c a words writes) (Vm.readWord table i) s :=
  confined_read fun _ same => same (.word _) (own _ (inFrame_entryAddr table i))

theorem loadRoot_page :
    Confined Shared.cells (pageFootprint c a words writes) (Vm.loadRoot (.slot a)) s :=
  confined_read fun _ same =>
    congrArg (fun slot : AddressSpaceSlot => slot.space.pml4Phys) (same (.slot a) rfl)

theorem loadNxe_page :
    Confined Shared.cells (pageFootprint c a words writes) Vm.loadNxe s :=
  confined_read fun _ same => same .nxe trivial

theorem writeWord_page {table : PhysAddr} (i : Fin entryCount) (w : Word)
    (own : ∀ x, InFrame table x → x ∈ words) :
    Confined Shared.cells (pageFootprint c a words true) (Vm.writeWord table i w) s := by
  refine confined_atomic fun s' same => ⟨rfl, ?_, ?_⟩
  · rintro (x | _ | j | _ | _ | _ | _ | d) ⟨-, inside⟩
    · have before : s'.sys.mem x = s.sys.mem x := same (.word x) inside
      change writeEntry s'.sys.mem table i w x = writeEntry s.sys.mem table i w x
      rw [writeEntry_apply, writeEntry_apply, before]
    · exact inside.elim
    · exact inside.elim
    · exact inside.elim
    · exact inside.elim
    · exact inside.elim
    · exact inside.elim
    · exact same (.tlb d) inside
  · rintro (x | _ | j | _ | _ | _ | _ | d) outside
    · change writeEntry s'.sys.mem table i w x = s'.sys.mem x
      rw [writeEntry_apply, if_neg]
      rintro rfl
      exact outside ⟨rfl, own _ (inFrame_entryAddr table i)⟩
    all_goals rfl

theorem flushTlbPage_page [DecidableEq C] (v : VirtAddr) :
    Confined Shared.cells (pageFootprint c a words true) (Vm.flushTlbPage c v) s := by
  refine confined_atomic fun s' same => ⟨rfl, ?_, ?_⟩
  · rintro (x | _ | j | _ | _ | _ | _ | d) ⟨-, inside⟩
    · exact same (.word x) inside
    · exact inside.elim
    · exact inside.elim
    · exact inside.elim
    · exact inside.elim
    · exact inside.elim
    · exact inside.elim
    · obtain rfl : d = c := inside
      have before : s'.tlb d = s.tlb d := same (.tlb d) rfl
      change Function.update s'.tlb d _ d = Function.update s.tlb d _ d
      rw [Function.update_self, Function.update_self, before]
  · rintro (x | _ | j | _ | _ | _ | _ | d) outside
    case tlb =>
      change Function.update s'.tlb c _ d = s'.tlb d
      rw [Function.update_of_ne]
      exact fun same => outside ⟨rfl, same⟩
    all_goals rfl

end

/-! ### Calls under the lock

`address_space_new`, `address_space_destroy` and `map_4k` use the allocator, and the
lock lets only one of them run.  Their footprints are therefore given by what they leave
alone: the words in the tables of other spaces, and the slots of these spaces. -/

/-- A call under the lock: it may use everything except the TLBs of the other CPUs and the
words of `foreign`, and it leaves the slots of `kept` as they are. -/
def lockedFootprint (c : C) (foreign : Set Word) (kept : Fin maxAddressSpaces → Prop) :
    Footprint (Cell C) where
  reads := {l | match l with
    | .word x => x ∉ foreign
    | .tlb d => d = c
    | _ => True}
  writes := {l | match l with
    | .word x => x ∉ foreign
    | .tlb d => d = c
    | .slot i => ¬ kept i
    | .nxe => False
    | .log => False
    | _ => True}
  writes_subset := by
    rintro (x | _ | i | _ | _ | _ | _ | d) inside
    all_goals first | exact inside | trivial

/-- The states agree on what a call under the lock may read. -/
structure Near (c : C) (foreign : Set Word) (s s' : Shared C A) : Prop where
  word : ∀ x, x ∉ foreign → s'.sys.mem x = s.sys.mem x
  rest : s'.sys = { s.sys with mem := s'.sys.mem }
  tlb : s'.tlb c = s.tlb c

/-- What a call under the lock must leave as it is. -/
structure Spared (c : C) (foreign : Set Word) (kept : Fin maxAddressSpaces → Prop)
    (s s' : Shared C A) : Prop where
  word : ∀ x ∈ foreign, s'.sys.mem x = s.sys.mem x
  slot : ∀ i, kept i → s'.sys.asSlots i = s.sys.asSlots i
  nxe : s'.sys.nxeEnabled = s.sys.nxeEnabled
  log : s'.sys.tlbOps = s.sys.tlbOps
  tlb : ∀ d, d ≠ c → s'.tlb d = s.tlb d

section

variable {c : C} {foreign : Set Word} {kept : Fin maxAddressSpaces → Prop}
variable {s s' : Shared C A}

theorem near_iff_agree :
    Near c foreign s s' ↔ AgreeOn Shared.cells (lockedFootprint c foreign kept).reads s s' := by
  constructor
  · rintro ⟨word, rest, tlb⟩ (x | _ | i | _ | _ | _ | _ | d) inside
    · exact word x inside
    · exact (congrArg (fun sys : Sys A => sys.ptAlloc) rest :)
    · exact (congrArg (fun sys : Sys A => sys.asSlots i) rest :)
    · exact (congrArg (fun sys : Sys A => (sys.kas, sys.kasHandle)) rest :)
    · exact (congrArg (fun sys : Sys A => sys.currentPerCpu) rest :)
    · exact (congrArg (fun sys : Sys A => sys.nxeEnabled) rest :)
    · exact (congrArg (fun sys : Sys A => sys.tlbOps) rest :)
    · obtain rfl : d = c := inside
      exact tlb
  · intro same
    have alloc : s'.sys.ptAlloc = s.sys.ptAlloc := same .alloc trivial
    have slots : s'.sys.asSlots = s.sys.asSlots := funext fun i => same (.slot i) trivial
    have kernel : s'.sys.kas = s.sys.kas ∧ s'.sys.kasHandle = s.sys.kasHandle :=
      Prod.mk.inj (same .kernel trivial)
    have current : s'.sys.currentPerCpu = s.sys.currentPerCpu := same .current trivial
    have nxe : s'.sys.nxeEnabled = s.sys.nxeEnabled := same .nxe trivial
    have log : s'.sys.tlbOps = s.sys.tlbOps := same .log trivial
    refine ⟨fun x outside => same (.word x) outside, ?_, same (.tlb c) rfl⟩
    dsimp only
    rw [← alloc, ← slots, ← kernel.1, ← kernel.2, ← current, ← nxe, ← log]

theorem confined_locked {f : Shared C A → α × Shared C A}
    (act : ∀ s', Near c foreign s s' → (f s').1 = (f s).1 ∧ Near c foreign (f s).2 (f s').2 ∧
      Spared c foreign kept s' (f s').2) :
    Confined Shared.cells (lockedFootprint c foreign kept) (Prog.atomic f) s := by
  refine confined_atomic fun s' same => ?_
  obtain ⟨result, near, spared⟩ := act s' (near_iff_agree.mpr same)
  refine ⟨result, (near_iff_agree.mp near).mono (Footprint.writes_subset _), ?_⟩
  rintro (x | _ | i | _ | _ | _ | _ | d) outside
  · exact spared.word x (not_not.mp outside)
  · exact (outside trivial).elim
  · exact spared.slot i (not_not.mp outside)
  · exact (outside trivial).elim
  · exact (outside trivial).elim
  · exact spared.nxe
  · exact spared.log
  · exact spared.tlb d outside

theorem Spared.refl (s : Shared C A) : Spared c foreign kept s s :=
  ⟨fun _ _ => rfl, fun _ _ => rfl, rfl, rfl, fun _ _ => rfl⟩

/-- A read of anything but the foreign words. -/
theorem read_locked {f : Shared C A → α} (reads : ∀ s', Near c foreign s s' → f s' = f s) :
    Confined Shared.cells (lockedFootprint c foreign kept)
      (Prog.atomic fun s => (f s, s)) s :=
  confined_locked fun s' near => ⟨reads s' near, near, .refl s'⟩

theorem readWord_locked {table : PhysAddr} (i : Fin entryCount)
    (outside : ∀ x, InFrame table x → x ∉ foreign) :
    Confined Shared.cells (lockedFootprint c foreign kept) (Vm.readWord table i) s :=
  read_locked fun _ near => near.word _ (outside _ (inFrame_entryAddr table i))

theorem loadRoot_locked (aspace : AddressSpace) :
    Confined Shared.cells (lockedFootprint c foreign kept) (Vm.loadRoot aspace) s :=
  read_locked fun s' near => by
    rw [near.rest]
    cases aspace <;> rfl

theorem changeMem_locked {change : Mem → Mem}
    (sees : ∀ m m' : Mem, (∀ x, x ∉ foreign → m' x = m x) →
      ∀ x, x ∉ foreign → change m' x = change m x)
    (keeps : ∀ (m : Mem) (x : Word), x ∈ foreign → change m x = m x) :
    Confined Shared.cells (lockedFootprint c foreign kept) (Vm.changeMem change) s := by
  refine confined_locked fun s' near => ⟨rfl, ⟨?_, ?_, near.tlb⟩, ⟨?_, ?_, rfl, rfl, ?_⟩⟩
  · exact sees _ _ near.word
  · rw [near.rest]
  · exact keeps _
  · exact fun _ _ => rfl
  · exact fun _ _ => rfl

theorem writeWord_locked {table : PhysAddr} (i : Fin entryCount) (w : Word)
    (outside : ∀ x, InFrame table x → x ∉ foreign) :
    Confined Shared.cells (lockedFootprint c foreign kept) (Vm.writeWord table i w) s := by
  apply changeMem_locked
  · intro m m' same x out
    rw [writeEntry_apply, writeEntry_apply, same x out]
  · intro m x inside
    rw [writeEntry_apply, if_neg]
    rintro rfl
    exact outside _ (inFrame_entryAddr table i) inside

theorem zeroFrame_locked {frame : PhysAddr} (outside : ∀ x, InFrame frame x → x ∉ foreign) :
    Confined Shared.cells (lockedFootprint c foreign kept)
      (Vm.changeMem fun m => zeroFrame m frame) s := by
  apply changeMem_locked
  · intro m m' same x out
    rw [zeroFrame, zeroFrame, same x out]
  · intro m x inside
    rw [zeroFrame, if_neg fun here => outside x here inside]

theorem copyEntries_locked {source frame : PhysAddr} (start : Fin entryCount)
    (outside : ∀ x, InFrame frame x → x ∉ foreign)
    (sourceOutside : ∀ x, InFrame source x → x ∉ foreign) :
    Confined Shared.cells (lockedFootprint c foreign kept)
      (Vm.changeMem fun m => copyEntries m source frame start) s := by
  apply changeMem_locked
  · intro m m' same x out
    rw [copyEntries, copyEntries]
    split
    · rename_i copied
      apply same
      apply sourceOutside
      rw [InFrame, BitVec.add_comm, BitVec.add_sub_cancel]
      exact copied.1
    · exact same x out
  · intro m x inside
    rw [copyEntries, if_neg fun copied => outside x copied.1 inside]

theorem flushTlbPage_locked [DecidableEq C] (v : VirtAddr) :
    Confined Shared.cells (lockedFootprint c foreign kept) (Vm.flushTlbPage c v) s := by
  refine confined_locked fun s' near =>
    ⟨rfl, ⟨near.word, near.rest, ?_⟩,
      ⟨fun _ _ => rfl, fun _ _ => rfl, rfl, rfl, ?_⟩⟩
  · change Function.update s'.tlb c _ c = Function.update s.tlb c _ c
    rw [Function.update_self, Function.update_self, near.tlb]
  · intro d other
    exact Function.update_of_ne other _ _

end

/-! ### The allocator

Zeroing a new frame writes words outside any table.  That none of them belongs to another
space is not a matter of the lock: the allocator does not hand out a frame that is held. -/

/-- The answer of the allocator does not depend on memory, and what it makes of a word
depends on that word only. -/
class LocalFrameAlloc (A : Type) [PageTableFrameAlloc A] : Prop where
  answer : ∀ (al : A) (m m' : Mem),
    (allocFrame4k al m').1 = (allocFrame4k al m).1 ∧
      (allocFrame4k al m').2.1 = (allocFrame4k al m).2.1
  words : ∀ (al : A) (m m' : Mem) (x : Word), m' x = m x →
    (allocFrame4k al m').2.2 x = (allocFrame4k al m).2.2 x

section

variable [PageTableFrameAlloc A] {c : C} {foreign : Set Word}
variable {kept : Fin maxAddressSpaces → Prop} {s : Shared C A}

theorem giveFrame_locked (frame : PhysAddr) :
    Confined Shared.cells (lockedFootprint c foreign kept) (Vm.giveFrame frame) s := by
  refine confined_locked fun s' near => ⟨rfl, ⟨near.word, ?_, near.tlb⟩,
    ⟨fun _ _ => rfl, fun _ _ => rfl, rfl, rfl, fun _ _ => rfl⟩⟩
  dsimp only
  rw [near.rest]

variable [LawfulFrameAlloc A] [LocalFrameAlloc A]

theorem takeFrame_locked (valid : Valid s.sys.ptAlloc)
    (fresh : ∀ {f}, IsFrame f → ¬ Held s.sys.ptAlloc f → ∀ x, InFrame f x → x ∉ foreign) :
    Confined Shared.cells (lockedFootprint c foreign kept) Vm.takeFrame s := by
  refine confined_locked fun s' near => ?_
  have alloc : s'.sys.ptAlloc = s.sys.ptAlloc := by rw [near.rest]
  obtain ⟨sameAnswer, sameAlloc⟩ :=
    LocalFrameAlloc.answer s.sys.ptAlloc s.sys.mem s'.sys.mem
  dsimp only
  rw [alloc]
  refine ⟨sameAnswer, ⟨fun x outside => ?_, ?_, near.tlb⟩,
    ⟨fun x inside => ?_, fun _ _ => rfl, rfl, rfl, fun _ _ => rfl⟩⟩
  · exact LocalFrameAlloc.words _ _ _ x (near.word x outside)
  · dsimp only
    rw [near.rest, sameAlloc]
  · -- a foreign word is in no frame that the allocator may hand out
    rcases done : allocFrame4k s.sys.ptAlloc s'.sys.mem with ⟨_ | f, al, m⟩
    · obtain ⟨-, rfl, -⟩ := alloc_none valid done
      rfl
    · obtain ⟨-, isFrame, free, -, outside⟩ := alloc_some valid done
      exact outside x fun here => fresh isFrame free x here inside

end

/-! ### Programs that can fail -/

section

variable {fp : Footprint (Cell C)} {s : Shared C A}

theorem confined_access {p : Prog (Shared C A) α} (confined : Confined Shared.cells fp p s) :
    Confined Shared.cells fp (ExceptT.run (Vm.access p)) s :=
  confined.bind trivial

theorem confined_exceptBind {x : VmM C A α} {rest : α → VmM C A β}
    (first : Confined Shared.cells fp (ExceptT.run x) s)
    (second : ∀ a s', x.exec s = (.ok a, s') →
      Confined Shared.cells fp (ExceptT.run (rest a)) s') :
    Confined Shared.cells fp (ExceptT.run (x >>= rest)) s := by
  refine Confined.bind first ?_
  change Confined _ _ (ExceptT.bindCont rest (x.exec s).1) (x.exec s).2
  generalize done : x.exec s = outcome
  obtain ⟨e | a, s'⟩ := outcome
  · trivial
  · exact second a s' done

/-- An access, and then the rest in the state it leaves. -/
theorem confined_accessBind {p : Prog (Shared C A) α} {rest : α → VmM C A β}
    (first : Confined Shared.cells fp p s)
    (second : Confined Shared.cells fp (ExceptT.run (rest (p.run s).1)) (p.run s).2) :
    Confined Shared.cells fp (ExceptT.run (Vm.access p >>= rest)) s := by
  refine confined_exceptBind (confined_access first) fun a s' done => ?_
  rw [VmM.exec_access] at done
  obtain ⟨same, rfl⟩ := Prod.mk.inj done
  rw [← Except.ok.inj same]
  exact second

end

/-! ### `map_4k`

The descent writes the entries of its own space's tables and the frames it has just been
given.  Both stay outside the foreign words while the tree grows, which is what `Guarded`
carries from table to table. -/

section

variable [PageTableFrameAlloc A] [LawfulFrameAlloc A]
variable {foreign : Set Word} {live : Fin maxAddressSpaces → Prop} {a : Fin maxAddressSpaces}
variable {t t' : Sys A} {user : Bool}

/-- The foreign words are in no table of space `a` and in no frame it could be given. -/
structure Guarded (foreign : Set Word) (live : Fin maxAddressSpaces → Prop)
    (a : Fin maxAddressSpaces) (t : Sys A) : Prop where
  inv : TreesInv live t
  own : ∀ {path p}, HasTable live t.toMachine a path p → ∀ x, InFrame p x → x ∉ foreign
  fresh : ∀ {f}, IsFrame f → ¬ Held t.ptAlloc f → ∀ x, InFrame f x → x ∉ foreign

theorem Guarded.extends (guard : Guarded foreign live a t) (ext : Extends live a user t t') :
    Guarded foreign live a t' where
  inv := ext.inv
  own table := by
    rcases ext.fresh table with old | ⟨-, -, free, -⟩
    · exact guard.own old
    · exact guard.fresh (ext.inv.isFrame table) free
  fresh isFrame free := guard.fresh isFrame fun held => free (ext.heldMono held)

variable [LocalFrameAlloc A] [DecidableEq C] {c : C} {kept : Fin maxAddressSpaces → Prop}
variable {s : Shared C A}

theorem requestFrame_confined (valid : Valid t.ptAlloc)
    (fresh : ∀ {f}, IsFrame f → ¬ Held t.ptAlloc f → ∀ x, InFrame f x → x ∉ foreign) :
    Confined Shared.cells (lockedFootprint c foreign kept) (ExceptT.run Vm.requestFrame)
      (s.put c t) := by
  refine confined_accessBind (takeFrame_locked valid fresh) ?_
  rcases (Vm.takeFrame.run (s.put c t)).1 with _ | frame <;> trivial

omit [LocalFrameAlloc A] in
theorem requestFrame_frame (valid : Valid t.ptAlloc) {frame : PhysAddr}
    {s' : Shared C A} (done : Vm.requestFrame.exec (s.put c t) = (.ok frame, s')) :
    IsFrame frame ∧ ¬ Held t.ptAlloc frame ∧
      ∃ al m, s' = s.put c { t with ptAlloc := al, mem := m } := by
  rw [Vm.requestFrame_exec, RincOs.requestFrame_exec] at done
  rcases alloc : allocFrame4k t.ptAlloc t.mem with ⟨_ | f, al, m⟩
  · rw [alloc] at done
    cases (Prod.mk.inj done).1
  · rw [alloc] at done
    obtain ⟨same, rfl⟩ := Prod.mk.inj done
    obtain rfl : f = frame := Except.ok.inj same
    obtain ⟨-, isFrame, free, -⟩ := alloc_some valid alloc
    exact ⟨isFrame, free, al, m, rfl⟩

theorem ensureTable_confined {path : List (Fin entryCount)} {parent : PhysAddr}
    (i : Fin entryCount) (guard : Guarded foreign live a t)
    (table : HasTable live t.toMachine a path parent) :
    Confined Shared.cells (lockedFootprint c foreign kept)
      (ExceptT.run (Vm.ensureTable parent i user)) (s.put c t) := by
  refine confined_accessBind (readWord_locked i (guard.own table)) ?_
  split
  · trivial
  refine confined_exceptBind (requestFrame_confined guard.inv.valid guard.fresh) ?_
  intro frame s' done
  obtain ⟨isFrame, free, -⟩ := requestFrame_frame guard.inv.valid done
  refine confined_accessBind (zeroFrame_locked (guard.fresh isFrame free)) ?_
  exact confined_accessBind (writeWord_locked i _ (guard.own table)) trivial

/-- A table is ensured, and then the rest goes on below it. -/
theorem ensureTable_then {path : List (Fin entryCount)} {parent : PhysAddr}
    {i : Fin entryCount} {rest : PhysAddr → VmM C A β} (guard : Guarded foreign live a t)
    (table : HasTable live t.toMachine a path parent) (admitted : LowerPath 3 (path ++ [i]))
    (onward : ∀ child t', Guarded foreign live a t' →
      HasTable live t'.toMachine a (path ++ [i]) child →
      Confined Shared.cells (lockedFootprint c foreign kept) (ExceptT.run (rest child))
        (s.put c t')) :
    Confined Shared.cells (lockedFootprint c foreign kept)
      (ExceptT.run (Vm.ensureTable parent i user >>= rest)) (s.put c t) := by
  refine confined_exceptBind (ensureTable_confined i guard table) fun child s' done => ?_
  rw [Vm.ensureTable_exec] at done
  have ends : Descends live a user t _ _ := ensureTable_spec guard.inv table admitted
  generalize (RincOs.ensureTable parent i user).exec t = outcome at done ends
  obtain ⟨e | found, t'⟩ := outcome
  · cases (Prod.mk.inj done).1
  · obtain ⟨same, rfl⟩ := Prod.mk.inj done
    obtain rfl : found = child := Except.ok.inj same
    exact onward found t' (guard.extends ends.1) ends.2

theorem map4k_confined {v : VirtAddr} (guard : Guarded foreign live a t) (alive : live a)
    (lower : LowerHalf v) (p : PhysAddr) (flags : MapFlags) :
    Confined Shared.cells (lockedFootprint c foreign kept)
      (ExceptT.run (Vm.map4k c (.slot a) v p flags)) (s.put c t) := by
  have path : LowerPath 3 ([] ++ pml4Index v :: [pdptIndex v, pdIndex v]) := lower.tablePath
  obtain ⟨first, path⟩ := path.next
  obtain ⟨second, path⟩ := path.next
  obtain ⟨third, -⟩ := path.next
  rw [Vm.map4k]
  split
  · trivial
  split
  · trivial
  refine confined_accessBind (loadRoot_locked (.slot a)) ?_
  refine ensureTable_then guard (Layout.At.root alive) first fun pdpt t₁ guard₁ table₁ => ?_
  refine ensureTable_then guard₁ table₁ second fun pd t₂ guard₂ table₂ => ?_
  refine ensureTable_then guard₂ table₂ third fun pt t₃ guard₃ table₃ => ?_
  refine confined_accessBind (readWord_locked _ (guard₃.own table₃)) ?_
  split
  · trivial
  refine confined_accessBind (read_locked fun s' near => by rw [near.rest]) ?_
  refine confined_accessBind (writeWord_locked _ _ (guard₃.own table₃)) ?_
  exact confined_access (flushTlbPage_locked v)

end

/-! ### `address_space_destroy`

The recursion looks at the tables of its own space and gives them back.  It reads no
foreign word as long as every entry it follows leads to such a table. -/

section

variable [PageTableFrameAlloc A] [DecidableEq C] {c : C} {foreign : Set Word}
variable {kept : Fin maxAddressSpaces → Prop} {s : Shared C A} {m : Mem}

/-- On memory `m` the program keeps to its cells and changes the allocator only. -/
def Releases (c : C) (foreign : Set Word) (kept : Fin maxAddressSpaces → Prop)
    (s : Shared C A) (m : Mem) (p : Prog (Shared C A) PUnit) : Prop :=
  ∀ t : Sys A, t.mem = m →
    Confined Shared.cells (lockedFootprint c foreign kept) p (s.put c t) ∧
      ∃ al, p.run (s.put c t) = (⟨⟩, s.put c { t with ptAlloc := al })

theorem releases_giveFrame (frame : PhysAddr) :
    Releases c foreign kept s m (Vm.giveFrame frame) :=
  fun t _ => ⟨giveFrame_locked frame, freeFrame4k t.ptAlloc frame, rfl⟩

omit [PageTableFrameAlloc A] in
theorem Releases.bind {p q : Prog (Shared C A) PUnit} (first : Releases c foreign kept s m p)
    (second : Releases c foreign kept s m q) :
    Releases c foreign kept s m (p >>= fun _ => q) := by
  intro t mem
  obtain ⟨confined, al, run⟩ := first t mem
  obtain ⟨confined', al', run'⟩ := second { t with ptAlloc := al } mem
  refine ⟨confined.bind ?_, al', ?_⟩
  · rw [run]
    exact confined'
  · rw [Prog.run_bind, run, run']

omit [PageTableFrameAlloc A] in
theorem releases_forTables {table : PhysAddr} {body : PhysAddr → Prog (Shared C A) PUnit}
    {indices : List (Fin entryCount)} (outside : ∀ x, InFrame table x → x ∉ foreign)
    (each : ∀ i ∈ indices, ∀ child, nextSmall m table i = some child →
      Releases c foreign kept s m (body child)) :
    Releases c foreign kept s m (Vm.forTables table body indices) := by
  induction indices with
  | nil => exact fun t _ => ⟨trivial, t.ptAlloc, rfl⟩
  | cons i rest inductionHypothesis =>
      have onward := inductionHypothesis fun j later => each j (List.mem_cons_of_mem i later)
      have here := each i List.mem_cons_self
      intro t mem
      rw [Vm.forTables]
      -- the read changes nothing; what follows depends on the entry it finds
      have whole : Releases c foreign kept s m
          (if !present (readEntry m table i) then Vm.forTables table body rest
            else if readEntry m table i &&& ptePs != 0 then Vm.forTables table body rest
            else body (readEntry m table i &&& addrMask) >>= fun _ =>
              Vm.forTables table body rest) := by
        split
        · exact onward
        split
        · exact onward
        · rename_i isPresent small
          apply (here _ ?_).bind onward
          rw [nextSmall, if_neg isPresent, if_neg small]
      obtain ⟨confined, al, run⟩ := whole t mem
      subst mem
      exact ⟨(readWord_locked i outside).bind confined, al, by rw [Prog.run_bind]; exact run⟩

omit [PageTableFrameAlloc A] [DecidableEq C] in
theorem freeSlot_locked {a : Fin maxAddressSpaces} (handles : HandlesOk s.sys.toMachine)
    (used : Used s.sys.toMachine a) (own : ¬ kept a) :
    Confined Shared.cells (lockedFootprint c foreign kept)
      (Prog.atomic fun s : Shared C A =>
        ((⟨⟩ : PUnit),
          { s with
            sys := { s.sys with toMachine := freeSlot s.sys.toMachine (.slot a) } })) s := by
  refine confined_locked fun s' near => ?_
  have slots : s'.sys.asSlots = s.sys.asSlots := by rw [near.rest]
  have handles' : HandlesOk s'.sys.toMachine := by
    rw [near.rest]
    exact ⟨handles.slot, handles.kernel⟩
  have used' : Used s'.sys.toMachine a := used_congr slots ▸ used
  dsimp only
  rw [freeSlot_eq handles used, freeSlot_eq handles' used']
  refine ⟨rfl, ⟨near.word, ?_, near.tlb⟩, ⟨fun _ _ => rfl, ?_, rfl, rfl, fun _ _ => rfl⟩⟩
  · dsimp only
    rw [near.rest]
  · intro i keeps
    have other : i ≠ a := fun same => own (same ▸ keeps)
    exact Function.update_of_ne other _ _

theorem addressSpaceDestroy_confined [LawfulFrameAlloc A] {live : Fin maxAddressSpaces → Prop}
    {a : Fin maxAddressSpaces} {t : Sys A} (guard : Guarded foreign live a t) (alive : live a)
    (handles : HandlesOk t.toMachine) (used : Used t.toMachine a) (own : ¬ kept a) :
    Confined Shared.cells (lockedFootprint c foreign kept)
      (Vm.addressSpaceDestroy (.slot a)) (s.put c t) := by
  have below : ∀ {path p i child}, HasTable live t.toMachine a path p →
      LowerPath 3 (path ++ [i]) → nextSmall t.mem p i = some child →
      HasTable live t.toMachine a (path ++ [i]) child := by
    intro path p i child table admitted found
    rw [guard.inv.nextSmall_eq table admitted] at found
    exact table.child admitted found
  rw [Vm.addressSpaceDestroy]
  refine Confined.bind (read_locked fun s' near => by rw [near.rest]) ?_
  split
  · trivial
  refine Confined.bind (loadRoot_locked (.slot a)) ?_
  have root : HasTable live t.toMachine a [] (t.rootOf a) := Layout.At.root alive
  have tables : Releases c foreign kept s t.mem
      (Vm.forTables (t.rootOf a)
        (fun pdpt => do
          Vm.forTables pdpt
            (fun pd => do
              Vm.forTables pd Vm.giveFrame (List.finRange entryCount)
              Vm.giveFrame pd) (List.finRange entryCount)
          Vm.giveFrame pdpt)
        ((List.finRange entryCount).filter (· < kernelPml4Start))) := by
    apply releases_forTables (guard.own root)
    intro i lower pdpt found
    have lower : i < kernelPml4Start := by simpa using lower
    have table₁ := below root ⟨by simp, by simpa using lower⟩ found
    refine Releases.bind (releases_forTables (guard.own table₁) ?_) (releases_giveFrame pdpt)
    intro j _ pd found
    have table₂ := below table₁ ⟨by simp, by simpa using lower⟩ found
    refine Releases.bind (releases_forTables (guard.own table₂) ?_) (releases_giveFrame pd)
    exact fun _ _ pt _ => releases_giveFrame pt
  have address : (t.asX86 (.slot a)).pml4Phys = t.rootOf a := rfl
  rw [Prog.run_atomic, Vm.loadRoot_run, address]
  dsimp only
  generalize List.finRange entryCount = all at tables ⊢
  obtain ⟨confined, al, run⟩ := tables t rfl
  refine Confined.bind confined ?_
  refine Confined.bind (giveFrame_locked _) ?_
  rw [run]
  exact freeSlot_locked ⟨handles.slot, handles.kernel⟩ used own

end

/-! ### `address_space_new` -/

section

variable [PageTableFrameAlloc A] [LawfulFrameAlloc A] [LocalFrameAlloc A] [DecidableEq C]
variable {c : C} {foreign : Set Word} {kept : Fin maxAddressSpaces → Prop}
variable {s : Shared C A} {t : Sys A}

omit [PageTableFrameAlloc A] [LawfulFrameAlloc A] [LocalFrameAlloc A] [DecidableEq C] in
theorem takeSlot_locked (pml4 : PhysAddr)
    (used : ∀ i, kept i → (s.sys.asSlots i).used = true) :
    Confined Shared.cells (lockedFootprint c foreign kept) (Vm.takeSlot pml4) s := by
  refine confined_locked fun s' near => ?_
  have slots : s'.sys.asSlots = s.sys.asSlots := by rw [near.rest]
  dsimp only
  rw [slots]
  cases found : (List.finRange maxAddressSpaces).find? fun i => !(s.sys.asSlots i).used with
  | none => exact ⟨rfl, near, .refl s'⟩
  | some i =>
      have free := List.find?_some found
      refine ⟨rfl, ⟨near.word, ?_, near.tlb⟩, ⟨fun _ _ => rfl, ?_, rfl, rfl, fun _ _ => rfl⟩⟩
      · dsimp only
        rw [near.rest]
      · intro j keeps
        have other : j ≠ i := by
          rintro rfl
          simp [used j keeps] at free
        change Function.update s.sys.asSlots i _ j = s'.sys.asSlots j
        rw [Function.update_of_ne other, slots]

omit [LawfulFrameAlloc A] [LocalFrameAlloc A] [PageTableFrameAlloc A] in
theorem initKernel_known (cpu : Cpu) {root : PhysAddr} (known : KernelAt root t.toMachine) :
    (Vm.initKernel cpu).exec (s.put c t) = (.ok .kas, s.put c t) := by
  rw [Vm.initKernel_exec]
  rcases initKernel_cases cpu t with ⟨h, handle, done⟩ | ⟨handle, -⟩ | ⟨handle, -⟩
  · obtain rfl : AddressSpace.kas = h := Option.some.inj (known.1.symm.trans handle)
    rw [done]
    rfl
  all_goals
    rw [known.1] at handle
    cases handle

omit [LawfulFrameAlloc A] [LocalFrameAlloc A] [PageTableFrameAlloc A] in
theorem initKernel_confined (cpu : Cpu) {root : PhysAddr} (known : KernelAt root t.toMachine) :
    Confined Shared.cells (lockedFootprint c foreign kept) (ExceptT.run (Vm.initKernel cpu))
      (s.put c t) := by
  refine confined_accessBind (read_locked fun s' near => by rw [near.rest]) ?_
  have handle : (Prog.atomic fun s : Shared C A => (s.sys.kasHandle, s)).run (s.put c t) =
      (t.kasHandle, s.put c t) := rfl
  rw [handle, known.1]
  trivial

theorem addressSpaceNew_confined (cpu : Cpu) {root : PhysAddr}
    (known : KernelAt root t.toMachine) (source : ∀ x, InFrame root x → x ∉ foreign)
    (valid : Valid t.ptAlloc)
    (fresh : ∀ {f}, IsFrame f → ¬ Held t.ptAlloc f → ∀ x, InFrame f x → x ∉ foreign)
    (used : ∀ i, kept i → (t.asSlots i).used = true) :
    Confined Shared.cells (lockedFootprint c foreign kept)
      (ExceptT.run (Vm.addressSpaceNew cpu)) (s.put c t) := by
  refine confined_exceptBind (initKernel_confined cpu known) fun h s' done => ?_
  rw [initKernel_known cpu known] at done
  obtain ⟨-, rfl⟩ := Prod.mk.inj done
  refine confined_accessBind (read_locked fun s' near => by rw [near.rest]) ?_
  have kernel : (Prog.atomic fun s : Shared C A => (s.sys.kas, s)).run (s.put c t) =
      (t.kas, s.put c t) := rfl
  rw [kernel, known.2]
  refine confined_exceptBind (requestFrame_confined valid fresh) fun pml4 s' done => ?_
  obtain ⟨isFrame, free, al, m, rfl⟩ := requestFrame_frame valid done
  have outside := fresh isFrame free
  refine confined_accessBind (zeroFrame_locked outside) ?_
  refine confined_accessBind (copyEntries_locked _ outside source) ?_
  refine confined_accessBind (takeSlot_locked pml4 used) ?_
  split <;> trivial

end

/-! ### `unmap_4k`, `protect_4k` and `translate` -/

section

variable [DecidableEq C] {c : C} {live : Fin maxAddressSpaces → Prop}
variable {a : Fin maxAddressSpaces} {words : Set Word} {writes : Bool} {v : VirtAddr}
variable {s : Shared C A} {t : Sys A}

theorem walkToPt_page (alive : live a) (lower : LowerHalf v)
    (own : ∀ {path p}, HasTable live t.toMachine a path p → ∀ x, InFrame p x → x ∈ words) :
    Confined Shared.cells (pageFootprint c a words writes)
      (Vm.walkToPt (t.rootOf a) v) (s.put c t) := by
  have path : LowerPath 3 ([] ++ pml4Index v :: [pdptIndex v, pdIndex v]) := lower.tablePath
  obtain ⟨first, path⟩ := path.next
  obtain ⟨second, -⟩ := path.next
  have root : HasTable live t.toMachine a [] (t.rootOf a) := Layout.At.root alive
  rw [Vm.walkToPt]
  refine Confined.bind (readWord_page _ (own root)) ?_
  rw [Vm.readWord_run]
  dsimp only
  split
  · trivial
  rename_i isPresent
  have table₁ := root.child first (nextTable_eq_some.mpr ⟨by simpa using isPresent, rfl⟩)
  refine Confined.bind (readWord_page _ (own table₁)) ?_
  rw [Vm.readWord_run]
  dsimp only
  split
  · trivial
  rename_i isPresent'
  have table₂ := table₁.child second (nextTable_eq_some.mpr ⟨by simpa using isPresent', rfl⟩)
  refine Confined.bind (readWord_page _ (own table₂)) ?_
  split <;> trivial

theorem findLeaf_page (alive : live a) (lower : LowerHalf v)
    (own : ∀ {path p}, HasTable live t.toMachine a path p → ∀ x, InFrame p x → x ∈ words) :
    Confined Shared.cells (pageFootprint c a words writes)
      (ExceptT.run (Vm.findLeaf (.slot a) v)) (s.put c t) := by
  rw [Vm.findLeaf]
  split
  · trivial
  split
  · trivial
  refine confined_accessBind loadRoot_page ?_
  rw [Vm.loadRoot_run]
  refine confined_accessBind (walkToPt_page alive lower own) ?_
  rw [Vm.walkToPt_run]
  dsimp only
  cases found : RincOs.walkToPt t.mem (t.asX86 (.slot a)).pml4Phys v with
  | none => trivial
  | some pt =>
      have table := (walkToPt_eq_some alive lower).mp found
      refine confined_accessBind (readWord_page _ (own table)) ?_
      split <;> trivial

/-- The page table that `findLeaf` returns is one of the space. -/
theorem findLeaf_table (alive : live a) (lower : LowerHalf v) {pt : PhysAddr}
    {s' : Shared C A} (done : (Vm.findLeaf (.slot a) v).exec (s.put c t) = (.ok pt, s')) :
    HasTable live t.toMachine a (tablePath v) pt ∧ s' = s.put c t := by
  rw [Vm.findLeaf_exec] at done
  split at done
  · cases done
  split at done
  · cases done
  cases found : RincOs.walkToPt t.mem (t.asX86 (.slot a)).pml4Phys v with
  | none =>
      rw [found] at done
      cases done
  | some table =>
      rw [found] at done
      dsimp only at done
      split at done
      · cases done
      · obtain ⟨same, rfl⟩ := Prod.mk.inj done
        obtain rfl : table = pt := Except.ok.inj same
        exact ⟨(walkToPt_eq_some alive lower).mp found, rfl⟩

theorem unmap4k_page (alive : live a) (lower : LowerHalf v)
    (own : ∀ {path p}, HasTable live t.toMachine a path p → ∀ x, InFrame p x → x ∈ words) :
    Confined Shared.cells (pageFootprint c a words true)
      (ExceptT.run (Vm.unmap4k c (.slot a) v)) (s.put c t) := by
  refine confined_exceptBind (findLeaf_page alive lower own) fun pt s' done => ?_
  obtain ⟨table, rfl⟩ := findLeaf_table alive lower done
  refine confined_accessBind (writeWord_page _ _ (own table)) ?_
  exact confined_access (flushTlbPage_page v)

theorem protect4k_page (alive : live a) (lower : LowerHalf v) (flags : MapFlags)
    (own : ∀ {path p}, HasTable live t.toMachine a path p → ∀ x, InFrame p x → x ∈ words) :
    Confined Shared.cells (pageFootprint c a words true)
      (ExceptT.run (Vm.protect4k c (.slot a) v flags)) (s.put c t) := by
  refine confined_exceptBind (findLeaf_page alive lower own) fun pt s' done => ?_
  obtain ⟨table, rfl⟩ := findLeaf_table alive lower done
  refine confined_accessBind (readWord_page _ (own table)) ?_
  refine confined_accessBind loadNxe_page ?_
  refine confined_accessBind (writeWord_page _ _ (own table)) ?_
  exact confined_access (flushTlbPage_page v)

theorem translate_page (alive : live a) (lower : LowerHalf v)
    (own : ∀ {path p}, HasTable live t.toMachine a path p → ∀ x, InFrame p x → x ∈ words) :
    Confined Shared.cells (pageFootprint c a words writes) (Vm.translate (.slot a) v)
      (s.put c t) := by
  rw [Vm.translate]
  split
  · trivial
  refine Confined.bind loadRoot_page ?_
  rw [Vm.loadRoot_run]
  refine Confined.bind (walkToPt_page alive lower own) ?_
  rw [Vm.walkToPt_run]
  dsimp only
  cases found : RincOs.walkToPt t.mem (t.asX86 (.slot a)).pml4Phys v with
  | none => trivial
  | some pt =>
      have table := (walkToPt_eq_some alive lower).mp found
      refine Confined.bind (readWord_page _ (own table)) ?_
      split <;> trivial

end

/-! ### The footprint of a call

The footprint of a call depends on the state in which the call is entered, as the tables
of a space do.  `program_confined` says that the whole program keeps to it from there. -/

/-- The words of the lower-half tables of a space. -/
def tableWords (k : Machine) (a : Fin maxAddressSpaces) : Set Word :=
  {x | ∃ path p, HasTable (Used k) k a path p ∧ InFrame p x}

/-- The spaces in use that a call is not made on. -/
def OtherSpace (k : Machine) (target : Option AddressSpace) (i : Fin maxAddressSpaces) : Prop :=
  Used k i ∧ target ≠ some (.slot i)

def foreignWords (k : Machine) (target : Option AddressSpace) : Set Word :=
  {x | ∃ b, OtherSpace k target b ∧ x ∈ tableWords k b}

/-- What a call started in state `s` touches. -/
def VmCall.footprint (c : C) (s : Shared C A) (call : VmCall) : Footprint (Cell C) :=
  match call with
  | .unmap4k (.slot a) _ | .protect4k (.slot a) _ _ =>
      pageFootprint c a (tableWords s.sys.toMachine a) true
  | .translate (.slot a) _ => pageFootprint c a (tableWords s.sys.toMachine a) false
  | _ =>
      lockedFootprint c (foreignWords s.sys.toMachine call.target)
        (OtherSpace s.sys.toMachine call.target)

section

variable [PageTableFrameAlloc A] [LawfulFrameAlloc A]

/-- The kernel space is known and its root is in no table and never will be. -/
structure KernelSettled (root : PhysAddr) (t : Sys A) : Prop where
  inv : RunInv t
  kernel : KernelAt root t.toMachine
  rootFrame : IsFrame root
  spares : Spares (· = root) t.ptAlloc

variable {root : PhysAddr} {s : Shared C A}

/-- No frame that may be handed out has foreign words. -/
theorem RunInv.fresh_foreign {t : Sys A} (inv : RunInv t) (target : Option AddressSpace)
    {f : PhysAddr} (isFrame : IsFrame f) (free : ¬ Held t.ptAlloc f) (x : Word)
    (inside : InFrame f x) : x ∉ foreignWords t.toMachine target := by
  rintro ⟨b, -, path, p, table, inside'⟩
  obtain rfl := frame_eq_of_inFrame isFrame (inv.trees.isFrame table) inside inside'
  exact free (inv.trees.held table)

/-- The tables of the other spaces are not those of the target. -/
theorem RunInv.guarded {t : Sys A} (inv : RunInv t) (a : Fin maxAddressSpaces) :
    Guarded (foreignWords t.toMachine (some (.slot a))) (Used t.toMachine) a t where
  inv := inv.trees
  own table x inside := by
    rintro ⟨b, ⟨-, other⟩, path, p, table', inside'⟩
    obtain rfl := frame_eq_of_inFrame (inv.trees.isFrame table) (inv.trees.isFrame table')
      inside inside'
    obtain ⟨rfl, -⟩ := inv.trees.forest table table'
    exact other rfl
  fresh isFrame free := inv.fresh_foreign _ isFrame free

/-- The tables do not depend on the invalidations of the CPU that looks at them. -/
theorem RunInv.withTlb {t : Sys A} (inv : RunInv t) (ops : List TlbOp) :
    RunInv { t with tlbOps := ops } where
  trees :=
    { roots := inv.trees.roots
      forest := inv.trees.forest
      entries := inv.trees.entries
      valid := inv.trees.valid
      held := inv.trees.held }
  handles := ⟨inv.handles.slot, inv.handles.kernel⟩

theorem KernelSettled.withTlb {t : Sys A} (settled : KernelSettled root t) (ops : List TlbOp) :
    KernelSettled root { t with tlbOps := ops } where
  inv := settled.inv.withTlb ops
  kernel := settled.kernel
  rootFrame := settled.rootFrame
  spares := settled.spares

variable [LocalFrameAlloc A] [DecidableEq C]

/-- Every call that may be made keeps to its footprint. -/
theorem program_confined (c : C) {call : VmCall} (settled : KernelSettled root s.sys)
    (target : ∀ aspace, call.target = some aspace →
      ∃ a, aspace = .slot a ∧ Used s.sys.toMachine a) (lower : call.Lower) :
    Confined Shared.cells (call.footprint c s) (call.program c) s := by
  have inv : RunInv (s.view c) := settled.inv.withTlb _
  have state := s.put_view c
  have words : ∀ {a path p}, HasTable (Used s.sys.toMachine) s.sys.toMachine a path p →
      ∀ x, InFrame p x → x ∈ tableWords s.sys.toMachine a :=
    fun {a path p} table x inside => ⟨path, p, table, inside⟩
  cases call with
  | newAddressSpace cpu =>
      have source : ∀ x, InFrame root x → x ∉ foreignWords s.sys.toMachine none := by
        rintro x inside ⟨b, -, path, p, table, inside'⟩
        obtain rfl := frame_eq_of_inFrame settled.rootFrame
          (settled.inv.trees.isFrame table) inside inside'
        exact settled.spares.held (settled.inv.trees.held table) rfl
      have used : ∀ i, OtherSpace s.sys.toMachine none i → (s.sys.asSlots i).used = true :=
        fun _ other => other.1
      have confined : Confined Shared.cells (VmCall.footprint c s (.newAddressSpace cpu))
          (ExceptT.run (Vm.addressSpaceNew cpu)) (s.put c (s.view c)) :=
        addressSpaceNew_confined cpu settled.kernel source inv.trees.valid
          (inv.fresh_foreign none) used
      rw [state] at confined
      exact confined.bind trivial
  | destroyAddressSpace aspace =>
      obtain ⟨a, rfl, used⟩ := target aspace rfl
      have own : ¬ OtherSpace s.sys.toMachine (some (.slot a)) a := fun other => other.2 rfl
      have confined : Confined Shared.cells
          (VmCall.footprint c s (.destroyAddressSpace (.slot a)))
          (Vm.addressSpaceDestroy (.slot a)) (s.put c (s.view c)) :=
        addressSpaceDestroy_confined (inv.guarded a) used inv.handles used own
      rw [state] at confined
      exact confined.bind trivial
  | map4k aspace v p flags =>
      obtain ⟨a, rfl, used⟩ := target aspace rfl
      have confined : Confined Shared.cells (VmCall.footprint c s (.map4k (.slot a) v p flags))
          (ExceptT.run (Vm.map4k c (.slot a) v p flags)) (s.put c (s.view c)) :=
        map4k_confined (inv.guarded a) used lower p flags
      rw [state] at confined
      exact confined.bind trivial
  | unmap4k aspace v =>
      obtain ⟨a, rfl, used⟩ := target aspace rfl
      have confined : Confined Shared.cells (VmCall.footprint c s (.unmap4k (.slot a) v))
          (ExceptT.run (Vm.unmap4k c (.slot a) v)) (s.put c (s.view c)) :=
        unmap4k_page used lower words
      rw [state] at confined
      exact confined.bind trivial
  | protect4k aspace v flags =>
      obtain ⟨a, rfl, used⟩ := target aspace rfl
      have confined : Confined Shared.cells (VmCall.footprint c s (.protect4k (.slot a) v flags))
          (ExceptT.run (Vm.protect4k c (.slot a) v flags)) (s.put c (s.view c)) :=
        protect4k_page used lower flags words
      rw [state] at confined
      exact confined.bind trivial
  | translate aspace v =>
      obtain ⟨a, rfl, used⟩ := target aspace rfl
      have confined : Confined Shared.cells (VmCall.footprint c s (.translate (.slot a) v))
          (Vm.translate (.slot a) v) (s.put c (s.view c)) :=
        translate_page used lower words
      rw [state] at confined
      exact confined.bind trivial

end

end RincOs
