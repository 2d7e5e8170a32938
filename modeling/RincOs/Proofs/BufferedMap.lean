/-
Module: RincOs.Proofs.BufferedMap
Purpose: The VM service on the allocator that reads its memory map from the buffer
  does what it does on the allocator with a fixed map: no call ever writes to the
  buffer, so every allocation finds the same entries in it.
Trusted boundary: none
Main exports:
  vmCall_writes, AllocMirror, AllocMirror.vmCall, AllocMirror.serialRun, Backed, Reads,
  bufferedMirror
-/
import RincOs.Kernel.Boot
import RincOs.Proofs.MemoryMap
import RincOs.Proofs.VmRefinement

namespace RincOs

open LawfulFrameAlloc

/-- A call of the service writes to frames of the allocator only. -/
theorem vmCall_writes {A : Type} [PageTableFrameAlloc A] [LawfulFrameAlloc A] {root : PhysAddr}
    {s : Sys A} {call : VmCall} (settled : KernelSettled root s) (may : call.Allowed s.toMachine)
    (x : Word) :
    (call.exec s).2.mem x = s.mem x ∨
      ∃ t, IsFrame t ∧ InFrame t x ∧ Held (call.exec s).2.ptAlloc t := by
  cases known : call.backend with
  | none =>
      cases call <;> cases known
      exact Or.inl rfl
  | some inner =>
      have step : StepEnds inner s (inner.exec s).2 :=
        lowerCall_step settled.inv (may.lowerCall known) rfl
      rw [VmCall.exec_backend known]
      exact step.frame x

/-! ### One allocator in place of another -/

/-- Allocator `B` does what `A` does as long as memory is intact, and memory stays intact
while only frames of `A` are written. -/
structure AllocMirror (A B : Type) [PageTableFrameAlloc A] [LawfulFrameAlloc A]
    [PageTableFrameAlloc B] where
  image : A → B
  Intact : Mem → Prop
  alloc : ∀ {a : A} {m : Mem}, Valid a → Intact m →
    allocFrame4k (image a) m =
      ((allocFrame4k a m).1, image (allocFrame4k a m).2.1, (allocFrame4k a m).2.2)
  free : ∀ (a : A) (f : PhysAddr), freeFrame4k (image a) f = image (freeFrame4k a f)
  intact : ∀ {a : A} {m m' : Mem}, Intact m →
    (∀ x, m' x = m x ∨ ∃ t, IsFrame t ∧ InFrame t x ∧ Held a t) → Intact m'

namespace AllocMirror

variable {A B C : Type} [PageTableFrameAlloc A] [LawfulFrameAlloc A] [PageTableFrameAlloc B]
variable (mirror : AllocMirror A B) {s : Sys A}

/-- The machine with the other allocator. -/
def sys (s : Sys A) : Sys B := { toMachine := s.toMachine, ptAlloc := mirror.image s.ptAlloc }

/-- An outcome on the machine with the other allocator. -/
def outcome {α : Type} (o : α × Sys A) : α × Sys B := (o.1, mirror.sys o.2)

def shared (s : Shared C A) : Shared C B := { sys := mirror.sys s.sys, tlb := s.tlb }

variable {live : Fin maxAddressSpaces → Prop} {a : Fin maxAddressSpaces}

/-! ### Operations -/

theorem allocFrame (valid : Valid s.ptAlloc) (intact : mirror.Intact s.mem) :
    allocFrame4k (mirror.sys s).ptAlloc (mirror.sys s).mem =
      ((allocFrame4k s.ptAlloc s.mem).1, mirror.image (allocFrame4k s.ptAlloc s.mem).2.1,
        (allocFrame4k s.ptAlloc s.mem).2.2) :=
  mirror.alloc valid intact

theorem ensureTable (valid : Valid s.ptAlloc) (intact : mirror.Intact s.mem)
    (parent : PhysAddr) (i : Fin entryCount) (user : Bool) :
    (RincOs.ensureTable parent i user).exec (mirror.sys s) =
      mirror.outcome ((RincOs.ensureTable parent i user).exec s) := by
  have same : (mirror.sys s).mem = s.mem := rfl
  rw [ensureTable_exec, ensureTable_exec, mirror.allocFrame valid intact, same]
  split
  · rfl
  · rcases allocFrame4k s.ptAlloc s.mem with ⟨_ | f, al, m⟩ <;> rfl

theorem intact_extends {user : Bool} {s' : Sys A} (inv : TreesInv live s)
    (ext : Extends live a user s s') (intact : mirror.Intact s.mem) :
    mirror.Intact s'.mem := by
  apply mirror.intact (a := s'.ptAlloc) intact
  intro x
  rcases ext.frame x with same | ⟨t, isFrame, inside, ⟨path, table⟩ | ⟨-, held⟩⟩
  · exact Or.inl same
  · exact Or.inr ⟨t, isFrame, inside, ext.heldMono (inv.held table)⟩
  · exact Or.inr ⟨t, isFrame, inside, held⟩

theorem ensurePath {path rest : List (Fin entryCount)} {t : PhysAddr} (user : Bool)
    (inv : TreesInv live s) (table : HasTable live s.toMachine a path t)
    (admitted : LowerPath 3 (path ++ rest)) (intact : mirror.Intact s.mem) :
    (RincOs.ensurePath user t rest).exec (mirror.sys s) =
      mirror.outcome ((RincOs.ensurePath user t rest).exec s) := by
  induction rest generalizing s path t with
  | nil => rfl
  | cons i rest inductionHypothesis =>
      have step : LowerPath 3 (path ++ [i]) :=
        (lowerLayout live s.asSlots).admits_initial ⟨rest, by simp⟩ admitted
      have first : Descends live a user s _ _ := ensureTable_spec inv table step
      rw [RincOs.ensurePath, RincOs.ensurePath, MmuM.exec_bind, MmuM.exec_bind,
        mirror.ensureTable inv.valid intact]
      generalize (RincOs.ensureTable t i user).exec s = reached at first ⊢
      obtain ⟨e | child, s₁⟩ := reached
      · rfl
      · obtain ⟨ext, childTable⟩ := first
        exact inductionHypothesis ext.inv childTable (by simpa using admitted)
          (mirror.intact_extends inv ext intact)

theorem map4k {v : VirtAddr} (inv : TreesInv live s) (alive : live a) (lower : LowerHalf v)
    (intact : mirror.Intact s.mem) (p : PhysAddr) (flags : MapFlags) :
    (RincOs.map4k (.slot a) v p flags).exec (mirror.sys s) =
      mirror.outcome ((RincOs.map4k (.slot a) v p flags).exec s) := by
  have descent : (RincOs.ensurePath (flags.contains .user)
        ((mirror.sys s).asX86 (.slot a)).pml4Phys (tablePath v)).exec (mirror.sys s) =
      mirror.outcome ((RincOs.ensurePath (flags.contains .user)
        (s.asX86 (.slot a)).pml4Phys (tablePath v)).exec s) := by
    have table : HasTable live s.toMachine a [] (s.rootOf a) := RadixForest.Layout.At.root alive
    exact mirror.ensurePath _ inv table lower.tablePath intact
  rw [map4k_exec, map4k_exec, descent]
  split
  · rfl
  split
  · rfl
  generalize (RincOs.ensurePath _ _ (tablePath v)).exec s = reached
  obtain ⟨e | pt, s₁⟩ := reached
  · rfl
  · have leaf : (mirror.sys s₁).mem = s₁.mem := rfl
    simp only [outcome, mapLeaf, leaf]
    split <;> rfl

theorem replaceLeaf (aspace : AddressSpace) (v : VirtAddr) (update : Bool → Word → Word)
    (s : Sys A) :
    (RincOs.replaceLeaf aspace v update).exec (mirror.sys s) =
      mirror.outcome ((RincOs.replaceLeaf aspace v update).exec s) := by
  have walk : walkToPt (mirror.sys s).mem ((mirror.sys s).asX86 aspace).pml4Phys v =
      walkToPt s.mem (s.asX86 aspace).pml4Phys v := rfl
  have same : (mirror.sys s).mem = s.mem := rfl
  rw [replaceLeaf_exec, replaceLeaf_exec, walk, same]
  split
  · rfl
  split
  · rfl
  cases walkToPt s.mem (s.asX86 aspace).pml4Phys v with
  | none => rfl
  | some pt =>
      dsimp only
      split <;> rfl

theorem newFromKernel (root : PhysAddr) (valid : Valid s.ptAlloc)
    (intact : mirror.Intact s.mem) :
    (RincOs.newFromKernel root).exec (mirror.sys s) =
      mirror.outcome ((RincOs.newFromKernel root).exec s) := by
  have slots : (mirror.sys s).asSlots = s.asSlots := rfl
  rw [newFromKernel_first, newFromKernel_first, mirror.allocFrame valid intact, slots]
  rcases allocFrame4k s.ptAlloc s.mem with ⟨_ | f, al, m⟩
  · rfl
  · dsimp only
    cases (List.finRange maxAddressSpaces).find? fun i => !(s.asSlots i).used with
    | none => rfl
    | some i => rfl

theorem addressSpaceNew (cpu : Cpu) {root : PhysAddr} (kernel : KernelAt root s.toMachine)
    (valid : Valid s.ptAlloc) (intact : mirror.Intact s.mem) :
    (RincOs.addressSpaceNew cpu).exec (mirror.sys s) =
      mirror.outcome ((RincOs.addressSpaceNew cpu).exec s) := by
  rw [addressSpaceNew_adopted cpu kernel.1 kernel.2,
    addressSpaceNew_adopted (s := mirror.sys s) cpu kernel.1 kernel.2]
  exact mirror.newFromKernel root valid intact

theorem freeAll (frames : List PhysAddr) (al : A) :
    frames.foldl freeFrame4k (mirror.image al) = mirror.image (frames.foldl freeFrame4k al) := by
  induction frames generalizing al with
  | nil => rfl
  | cons f frames inductionHypothesis =>
      rw [List.foldl_cons, mirror.free, inductionHypothesis, List.foldl_cons]

theorem addressSpaceDestroy (aspace : AddressSpace) (s : Sys A) :
    RincOs.addressSpaceDestroy aspace (mirror.sys s) =
      mirror.sys (RincOs.addressSpaceDestroy aspace s) := by
  have frames : destroyedFrames (mirror.sys s).mem ((mirror.sys s).asX86 aspace).pml4Phys =
      destroyedFrames s.mem (s.asX86 aspace).pml4Phys := rfl
  have alloc : (mirror.sys s).ptAlloc = mirror.image s.ptAlloc := rfl
  have handle : (mirror.sys s).kasHandle = s.kasHandle := rfl
  simp only [RincOs.addressSpaceDestroy, frames, alloc, handle, mirror.freeAll]
  generalize destroyedFrames s.mem (s.asX86 aspace).pml4Phys = freed
  split <;> rfl

/-! ### Calls -/

variable {root : PhysAddr} {call : VmCall}

theorem vmCall (settled : KernelSettled root s) (may : call.Allowed s.toMachine)
    (intact : mirror.Intact s.mem) :
    call.exec (mirror.sys s) = mirror.outcome (call.exec s) := by
  have inv := settled.inv.trees
  cases call with
  | newAddressSpace cpu =>
      have same := mirror.addressSpaceNew cpu settled.kernel inv.valid intact
      simp only [VmCall.exec, same]
      rfl
  | destroyAddressSpace aspace =>
      simp only [VmCall.exec, mirror.addressSpaceDestroy]
      rfl
  | map4k aspace v p flags =>
      obtain ⟨a, rfl, used⟩ := may.target aspace rfl
      have same := mirror.map4k inv used may.lower intact p flags
      simp only [VmCall.exec, same]
      rfl
  | unmap4k aspace v =>
      have same := mirror.replaceLeaf aspace v (fun _ _ => 0) s
      simp only [VmCall.exec, RincOs.unmap4k, same]
      rfl
  | protect4k aspace v flags =>
      have same := mirror.replaceLeaf aspace v
        (fun nxe entry => (entry &&& addrMask) ||| flagsToPte nxe flags) s
      simp only [VmCall.exec, RincOs.protect4k, same]
      rfl
  | translate aspace v => rfl

theorem vmCall_intact (settled : KernelSettled root s) (may : call.Allowed s.toMachine)
    (intact : mirror.Intact s.mem) : mirror.Intact (call.exec s).2.mem :=
  mirror.intact intact (vmCall_writes settled may)

variable [DecidableEq C]

/-- A serial run with the other allocator is one with the first. -/
theorem serialRun {start : Shared C A} {t' : Shared C B} {history : List (SerialEvent C)}
    (settled : KernelSettled root start.sys) (intact : mirror.Intact start.sys.mem)
    (serial : SerialRun (mirror.shared start) history t') :
    ∃ t, SerialRun start history t ∧ t' = mirror.shared t ∧ KernelSettled root t.sys ∧
      mirror.Intact t.sys.mem := by
  induction serial with
  | start => exact ⟨start, .start, rfl, settled, intact⟩
  | call before c call may inductionHypothesis =>
      obtain ⟨t, serial, rfl, settled', intact'⟩ := inductionHypothesis
      have may' : call.Allowed t.sys.toMachine := may
      have viewed : KernelSettled root (t.view c) := settled'.withTlb _
      have allowed : call.Allowed (t.view c).toMachine := ⟨may'.target, may'.lower⟩
      have same := mirror.vmCall viewed allowed intact'
      have view : (mirror.shared t).view c = mirror.sys (t.view c) := rfl
      rw [view, same]
      exact ⟨_, serial.call c call may', rfl, (serial_effect c settled' may').settled,
        mirror.vmCall_intact viewed allowed intact'⟩

end AllocMirror

/-! ### The buffer -/

/-- The buffer can hold the map, and no page of the map overlaps it. -/
structure Backed (membuf : Membuf) (map : BootMap) : Prop where
  count : map.count ≤ maxMemmap
  apart : ∀ {f}, f ∈ map.pages → ∀ {n}, n < 3 * maxMemmap → ¬ InFrame f (membuf.word n)

/-- The buffer holds the map. -/
def Reads (membuf : Membuf) (map : BootMap) (m : Mem) : Prop :=
  ∀ i < map.count, membuf.entry m i = map.view i

theorem Reads.outside {membuf : Membuf} {map : BootMap} {m m' : Mem}
    (reads : Reads membuf map m) (backed : Backed membuf map)
    (written : ∀ x, m' x = m x ∨ ∃ f ∈ map.pages, InFrame f x) : Reads membuf map m' := by
  intro i inside
  rw [← reads i inside]
  apply Membuf.entry_congr (Nat.lt_of_lt_of_le inside backed.count)
  intro n short
  rcases written (membuf.word n) with same | ⟨f, page, overlaps⟩
  · exact same
  · exact absurd overlaps (backed.apart page short)

/-- The allocator that reads the buffer in place of the one with the fixed map. -/
def bufferedMirror {membuf : Membuf} {map : BootMap} (backed : Backed membuf map) :
    AllocMirror (BootAllocOver map) (BufferedAlloc membuf) where
  image a := ⟨a.alloc⟩
  Intact := Reads membuf map
  alloc {a m} valid reads := by
    have count : a.alloc.entryCount = map.count := valid.count
    have same : a.alloc.allocFrame4k (membuf.entry m) m = a.alloc.allocFrame4k map.view m :=
      allocFrame4k_congr fun i inside => reads i (count ▸ inside)
    have read : allocFrame4k (⟨a.alloc⟩ : BufferedAlloc membuf) m =
        ((a.alloc.allocFrame4k (membuf.entry m) m).1,
          ⟨(a.alloc.allocFrame4k (membuf.entry m) m).2.1⟩,
          (a.alloc.allocFrame4k (membuf.entry m) m).2.2) := rfl
    rw [read, same]
    rfl
  free _ _ := rfl
  intact reads written := reads.outside backed fun x =>
    (written x).imp_right fun ⟨t, _, inside, held⟩ => ⟨t, held.1, inside⟩

theorem LimineBoot.backed {membuf : Membuf} {entries : List LimineEntry}
    {imageStart imageEnd : Nat} (good : LimineBoot membuf entries imageStart imageEnd) :
    Backed membuf good.map where
  count := good.fits
  apart page _ short := good.buffer_apart page short

end RincOs
