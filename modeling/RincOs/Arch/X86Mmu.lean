/-
Module: RincOs.Arch.X86Mmu
Purpose: The x86-64 MMU backend: page-table entry encoding, table walks,
  address-space slots and the mapping operations, over explicit machine state.
Trusted boundary: human-reviewed embedding of `arch/x86_64/src/mmu.rs`
Main exports:
  Machine, Sys, MmuM, flagsToPte, ensureTable, initKernel, addressSpaceNew,
  addressSpaceDestroy, map4k, unmap4k, protect4k, translate
-/
import RincOs.Hal.Mmu
import Mathlib.Data.List.FinRange

namespace RincOs

/-! ### Constants -/

/-- `KERNEL_PML4_START`: PML4 slots from here on belong to the kernel half. -/
def kernelPml4Start : Fin entryCount := 256

def pteP : Word := 1#64 <<< 0
def pteW : Word := 1#64 <<< 1
def pteU : Word := 1#64 <<< 2
def ptePwt : Word := 1#64 <<< 3
def ptePcd : Word := 1#64 <<< 4
def ptePs : Word := 1#64 <<< 7
def pteG : Word := 1#64 <<< 8
def pteNx : Word := 1#64 <<< 63

abbrev maxAddressSpaces : Nat := 64
abbrev maxCpus : Nat := 256

/-! ### State -/

/-- `AddressSpace`: an opaque pointer to an `X86AddressSpace`, either the one
inside the static `KAS` or the `space` field of a slot of `AS_SLOTS`. -/
inductive AddressSpace where
  | kas
  | slot (i : Fin maxAddressSpaces)
deriving DecidableEq, Repr

structure X86AddressSpace where
  pml4Phys : PhysAddr
deriving DecidableEq, Repr

/-- `AddressSpaceSlot`.  The dangling `EMPTY_HANDLE` is `none`. -/
structure AddressSpaceSlot where
  used : Bool
  space : X86AddressSpace
  handle : Option AddressSpace
deriving DecidableEq, Repr

def emptySlot : AddressSpaceSlot :=
  { used := false, space := ⟨0⟩, handle := none }

/-- TLB maintenance instructions. -/
inductive TlbOp where
  | invlpg (v : VirtAddr)
  | writeCr3 (root : PhysAddr)
deriving DecidableEq, Repr

/-- Physical memory and the statics of the backend.  `tlbOps` lists the TLB
maintenance instructions issued so far, oldest first. -/
structure Machine where
  mem : Mem
  nxeEnabled : Bool
  kas : Option X86AddressSpace
  kasHandle : Option AddressSpace
  asSlots : Fin maxAddressSpaces → AddressSpaceSlot
  currentPerCpu : Fin maxCpus → Option AddressSpace
  tlbOps : List TlbOp

/-- The machine together with the allocator passed as `pt_alloc`. -/
structure Sys (A : Type) extends Machine where
  ptAlloc : A

/-- What the executing CPU contributes: its CR3 and its `cpu_index()`. -/
structure Cpu where
  cr3 : Word
  index : Fin maxCpus

/-- The statics as they are linked into the image. -/
def Machine.boot (mem : Mem) : Machine :=
  { mem := mem
    nxeEnabled := false
    kas := none
    kasHandle := none
    asSlots := fun _ => emptySlot
    currentPerCpu := fun _ => none
    tlbOps := [] }

/-- Fallible backend code.  An error keeps the state reached so far, as `?`
does: nothing is rolled back. -/
def MmuM (A α : Type) : Type := ExceptT MapError (StateM (Sys A)) α

namespace MmuM

variable {A α β : Type}

instance : Monad (MmuM A) :=
  inferInstanceAs (Monad (ExceptT MapError (StateM (Sys A))))

instance : MonadStateOf (Sys A) (MmuM A) :=
  inferInstanceAs (MonadStateOf (Sys A) (ExceptT MapError (StateM (Sys A))))

instance : MonadExceptOf MapError (MmuM A) :=
  inferInstanceAs (MonadExceptOf MapError (ExceptT MapError (StateM (Sys A))))

def exec (x : MmuM A α) (s : Sys A) : Except MapError α × Sys A :=
  (ExceptT.run x).run s

@[simp] theorem exec_pure (a : α) (s : Sys A) :
    (pure a : MmuM A α).exec s = (.ok a, s) := rfl

@[simp] theorem exec_throw (e : MapError) (s : Sys A) :
    (throw e : MmuM A α).exec s = (.error e, s) := rfl

@[simp] theorem exec_get (s : Sys A) :
    (get : MmuM A (Sys A)).exec s = (.ok s, s) := rfl

@[simp] theorem exec_set (t s : Sys A) :
    (set t : MmuM A PUnit).exec s = (.ok ⟨⟩, t) := rfl

@[simp] theorem exec_modify (f : Sys A → Sys A) (s : Sys A) :
    (modify f : MmuM A PUnit).exec s = (.ok ⟨⟩, f s) := rfl

/-- Sequencing is the `?` operator: an error ends the computation in the state
it was raised in. -/
theorem exec_bind (x : MmuM A α) (f : α → MmuM A β) (s : Sys A) :
    (x >>= f).exec s =
      match x.exec s with
      | (.ok a, s') => (f a).exec s'
      | (.error e, s') => (.error e, s') := by
  have unfolded : (x >>= f).exec s =
      StateT.run (ExceptT.bindCont f (x.exec s).1) (x.exec s).2 := rfl
  rw [unfolded]
  obtain ⟨result, after⟩ := x.exec s
  cases result with
  | ok a => rfl
  | error e => rfl

theorem exec_bind_ok {x : MmuM A α} {f : α → MmuM A β} {s s' : Sys A} {a : α}
    (first : x.exec s = (.ok a, s')) : (x >>= f).exec s = (f a).exec s' := by
  rw [exec_bind, first]

theorem exec_bind_error {x : MmuM A α} {f : α → MmuM A β} {s s' : Sys A}
    {e : MapError} (first : x.exec s = (.error e, s')) :
    (x >>= f).exec s = (.error e, s') := by
  rw [exec_bind, first]

@[simp] theorem exec_get_bind (f : Sys A → MmuM A β) (s : Sys A) :
    (get >>= f : MmuM A β).exec s = (f s).exec s :=
  exec_bind_ok (exec_get s)

@[simp] theorem exec_modify_bind (g : Sys A → Sys A) (f : PUnit → MmuM A β)
    (s : Sys A) :
    ((modify g : MmuM A PUnit) >>= f).exec s = (f ⟨⟩).exec (g s) :=
  exec_bind_ok (exec_modify g s)

@[simp] theorem exec_set_bind (t : Sys A) (f : PUnit → MmuM A β) (s : Sys A) :
    ((set t : MmuM A PUnit) >>= f).exec s = (f ⟨⟩).exec t :=
  exec_bind_ok (exec_set t s)

@[simp] theorem exec_throw_bind (e : MapError) (f : α → MmuM A β) (s : Sys A) :
    ((throw e : MmuM A α) >>= f).exec s = (.error e, s) :=
  exec_bind_error (exec_throw e s)

@[simp] theorem exec_ite (c : Prop) [Decidable c] (x y : MmuM A α) (s : Sys A) :
    (if c then x else y).exec s = if c then x.exec s else y.exec s :=
  apply_ite (fun z => exec z s) c x y

end MmuM

/-! ### Address arithmetic -/

def aligned4k (x : Word) : Bool :=
  x &&& (pageSize - 1) == 0

def isCanonical (addr : Word) : Bool :=
  let sign := (addr >>> 47) &&& 1
  let upper := addr >>> 48
  if sign == 0 then upper == 0 else upper == 0xffff

/-- A 9-bit table index taken out of a virtual address. -/
def tableIndex (v : VirtAddr) (shift : Nat) : Fin entryCount :=
  ⟨((v >>> shift) &&& 0x1ff).toNat, by
    have slice := WordField.toNat_slice v shift (k := 9) (by decide)
    change ((v >>> shift) &&& BitVec.ofNat 64 (2 ^ 9 - 1)).toNat < 512
    omega⟩

def pml4Index (v : VirtAddr) : Fin entryCount := tableIndex v 39
def pdptIndex (v : VirtAddr) : Fin entryCount := tableIndex v 30
def pdIndex (v : VirtAddr) : Fin entryCount := tableIndex v 21
def ptIndex (v : VirtAddr) : Fin entryCount := tableIndex v 12

/-! ### Entries -/

/-- The present bit of an entry is set. -/
def present (e : Word) : Bool := e &&& pteP != 0

/-- `flags_to_pte`; `nxe` is `nxe_enabled()`. -/
def flagsToPte (nxe : Bool) (flags : MapFlags) : Word :=
  let p := pteP
  let p := if flags.contains .write then p ||| pteW else p
  let p := if flags.contains .user then p ||| pteU else p
  let p := if flags.contains .global then p ||| pteG else p
  let p := if !flags.contains .exec && nxe then p ||| pteNx else p
  if flags.contains .uncached then p ||| (ptePcd ||| ptePwt) else p

/-- The entry `ensure_table` writes for a new table. -/
def tableEntry (frame : PhysAddr) (user : Bool) : Word :=
  let flags := pteP ||| pteW
  let flags := if user then flags ||| pteU else flags
  (frame &&& addrMask) ||| flags

/-! ### Operations -/

variable {A : Type}

/-- `as_x86(aspace)`: dereference the handle. -/
def Machine.asX86 (k : Machine) : AddressSpace → X86AddressSpace
  | .kas => k.kas.getD ⟨0⟩
  | .slot i => (k.asSlots i).space

def flushTlbPage (v : VirtAddr) : MmuM A PUnit :=
  modify fun s => { s with tlbOps := s.tlbOps ++ [.invlpg v] }

/-- `pt_alloc.alloc_frame_4k().ok_or(MapError::OutOfMemory)?`. -/
def requestFrame [PageTableFrameAlloc A] : MmuM A PhysAddr := do
  let s ← get
  match allocFrame4k s.ptAlloc s.mem with
  | (none, a, m) =>
      set { s with ptAlloc := a, mem := m }
      throw .outOfMemory
  | (some frame, a, m) =>
      set { s with ptAlloc := a, mem := m }
      return frame

/-- `ensure_table`: allocate the next-level table if it is missing. -/
def ensureTable [PageTableFrameAlloc A] (parent : PhysAddr)
    (idx : Fin entryCount) (user : Bool) : MmuM A PhysAddr := do
  let entry := readEntry (← get).mem parent idx
  if present entry then
    return entry &&& addrMask
  else
    let frame ← requestFrame
    modify fun s => { s with mem := zeroFrame s.mem frame }
    modify fun s =>
      { s with mem := writeEntry s.mem parent idx (tableEntry frame user) }
    return frame

/-- `alloc_slot`: take the first slot that is not in use. -/
def allocSlot (pml4Phys : PhysAddr) : MmuM A AddressSpace := do
  let s ← get
  match (List.finRange maxAddressSpaces).find? fun i => !(s.asSlots i).used with
  | some i =>
      let slot := { used := true, space := ⟨pml4Phys⟩, handle := some (.slot i) }
      set { s with asSlots := Function.update s.asSlots i slot }
      return .slot i
  | none => throw .outOfMemory

/-- `free_slot`: release the first used slot whose handle is `aspace`.  The
handle value itself stays in the slot. -/
def freeSlot (k : Machine) (aspace : AddressSpace) : Machine :=
  let hit := fun i => (k.asSlots i).used && (k.asSlots i).handle == some aspace
  match (List.finRange maxAddressSpaces).find? hit with
  | some i =>
      let slot := { k.asSlots i with used := false, space := ⟨0⟩ }
      { k with asSlots := Function.update k.asSlots i slot }
  | none => k

/-- `init_kernel`: adopt the tables CR3 points at, once. -/
def initKernel (cpu : Cpu) : MmuM A AddressSpace := do
  match (← get).kasHandle with
  | some h => return h
  | none =>
      let cr3 := cpu.cr3 &&& addrMask
      if cr3 == 0 then
        throw .invalidArgs
      else
        modify fun s =>
          { s with
            kas := some ⟨cr3⟩
            kasHandle := some .kas
            currentPerCpu := Function.update s.currentPerCpu cpu.index (some .kas) }
        return .kas

/-- `address_space_new` once the kernel root is known: a zeroed PML4 with the
kernel half copied in, and a slot for it. -/
def newFromKernel [PageTableFrameAlloc A] (kernelRoot : PhysAddr) :
    MmuM A AddressSpace := do
  let pml4 ← requestFrame
  modify fun s => { s with mem := zeroFrame s.mem pml4 }
  modify fun s => { s with mem := copyEntries s.mem kernelRoot pml4 kernelPml4Start }
  allocSlot pml4

/-- `address_space_new`. -/
def addressSpaceNew [PageTableFrameAlloc A] (cpu : Cpu) : MmuM A AddressSpace := do
  let _ ← initKernel cpu
  match (← get).kas with
  | none => throw .invalidArgs
  | some kernel => newFromKernel kernel.pml4Phys

/-- One loop of `address_space_destroy` over some entries of a table: entries
that are absent or large pages are skipped, and for each other entry the frames
freed by the loop body are listed. -/
def freedBelow (m : Mem) (table : PhysAddr) (indices : List (Fin entryCount))
    (body : PhysAddr → List PhysAddr) : List PhysAddr :=
  indices.flatMap fun i =>
    let e := readEntry m table i
    if !present e then []
    else if e &&& ptePs != 0 then []
    else body (e &&& addrMask)

/-- The frames `address_space_destroy` passes to `free_frame_4k`, in order: each
table after the tables below it, lower half of the PML4 only. -/
def destroyedFrames (m : Mem) (root : PhysAddr) : List PhysAddr :=
  let all := List.finRange entryCount
  let lower := all.filter (· < kernelPml4Start)
  freedBelow m root lower (fun pdptPhys =>
    freedBelow m pdptPhys all (fun pdPhys =>
      freedBelow m pdPhys all (fun ptPhys => [ptPhys]) ++ [pdPhys])
    ++ [pdptPhys])
  ++ [root]

/-- `address_space_destroy`.  Freeing does not write memory, so the tables read
by the loops are those present at entry. -/
def addressSpaceDestroy [PageTableFrameAlloc A] (aspace : AddressSpace)
    (s : Sys A) : Sys A :=
  if s.kasHandle == some aspace then s
  else
    let frames := destroyedFrames s.mem (s.asX86 aspace).pml4Phys
    { freeSlot s.toMachine aspace with
      ptAlloc := frames.foldl freeFrame4k s.ptAlloc }

/-- `map_4k`. -/
def map4k [PageTableFrameAlloc A] (aspace : AddressSpace) (vaddr : VirtAddr)
    (paddr : PhysAddr) (flags : MapFlags) : MmuM A PUnit := do
  if !aligned4k vaddr || !aligned4k paddr then
    throw .unaligned
  if !isCanonical vaddr then
    throw .invalidArgs
  let user := flags.contains .user
  let root := ((← get).asX86 aspace).pml4Phys
  let pdptPhys ← ensureTable root (pml4Index vaddr) user
  let pdPhys ← ensureTable pdptPhys (pdptIndex vaddr) user
  let ptPhys ← ensureTable pdPhys (pdIndex vaddr) user
  let idx := ptIndex vaddr
  let s ← get
  if present (readEntry s.mem ptPhys idx) then
    throw .alreadyMapped
  let leaf := (paddr &&& addrMask) ||| flagsToPte s.nxeEnabled flags
  set { s with mem := writeEntry s.mem ptPhys idx leaf }
  flushTlbPage vaddr

/-- The descent shared by `unmap_4k`, `protect_4k` and `translate`: follow the
present entries down to the page table of `vaddr`, without looking at PS. -/
def walkToPt (m : Mem) (root : PhysAddr) (vaddr : VirtAddr) : Option PhysAddr :=
  let e1 := readEntry m root (pml4Index vaddr)
  if !present e1 then none else
  let e2 := readEntry m (e1 &&& addrMask) (pdptIndex vaddr)
  if !present e2 then none else
  let e3 := readEntry m (e2 &&& addrMask) (pdIndex vaddr)
  if !present e3 then none else
  some (e3 &&& addrMask)

/-- `unmap_4k` and `protect_4k` up to the write: check the address, find the
present leaf entry and replace it by `update entry`. -/
def replaceLeaf (aspace : AddressSpace) (vaddr : VirtAddr)
    (update : Bool → Word → Word) : MmuM A PUnit := do
  if !aligned4k vaddr then
    throw .unaligned
  if !isCanonical vaddr then
    throw .invalidArgs
  let s ← get
  match walkToPt s.mem (s.asX86 aspace).pml4Phys vaddr with
  | none => throw .notMapped
  | some pt =>
      let idx := ptIndex vaddr
      let entry := readEntry s.mem pt idx
      if !present entry then
        throw .notMapped
      set { s with mem := writeEntry s.mem pt idx (update s.nxeEnabled entry) }
      flushTlbPage vaddr

/-- `unmap_4k`. -/
def unmap4k (aspace : AddressSpace) (vaddr : VirtAddr) : MmuM A PUnit :=
  replaceLeaf aspace vaddr fun _ _ => 0

/-- `protect_4k`. -/
def protect4k (aspace : AddressSpace) (vaddr : VirtAddr) (flags : MapFlags) :
    MmuM A PUnit :=
  replaceLeaf aspace vaddr fun nxe entry =>
    (entry &&& addrMask) ||| flagsToPte nxe flags

/-- `translate`. -/
def translate (k : Machine) (aspace : AddressSpace) (vaddr : VirtAddr) :
    Except TranslateError PhysAddr :=
  if !isCanonical vaddr then .error .invalidAddress
  else
    match walkToPt k.mem (k.asX86 aspace).pml4Phys vaddr with
    | none => .error .notMapped
    | some pt =>
        let e4 := readEntry k.mem pt (ptIndex vaddr)
        if !present e4 then .error .notMapped
        else .ok ((e4 &&& addrMask) ||| (vaddr &&& 0xfff))

end RincOs
