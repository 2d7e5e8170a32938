/-
Module: RincOs.Kernel.VmService
Purpose: The VM service on several CPUs.  Each call is a program of single memory
  accesses; those that allocate or free table frames run under the lock of
  `PT_ALLOC`, the others do not take it.
Trusted boundary: human-reviewed embedding of `kernel/src/svc/vm.rs` and of the
  access order in `arch/x86_64/src/mmu.rs`; memory is sequentially consistent,
  and clearing or filling a frame that no table links is one step
Main exports:
  Shared, VmM, Vm.map4k, Vm.unmap4k, Vm.protect4k, Vm.translate,
  Vm.addressSpaceNew, Vm.addressSpaceDestroy, VmCall, VmCall.program,
  VmCall.exec, VmState, VmState.MayStart, VmStep, VmRun
-/
import RincOs.Library.Interleaving
import RincOs.Proofs.EntryBits

namespace RincOs

open Interleaving

/-! ### Programs of memory accesses -/

/-- What the CPUs share, and the TLB maintenance each of them has issued. -/
structure Shared (C A : Type) where
  sys : Sys A
  tlb : C → List TlbOp

/-- Fallible code, one access after the other. -/
abbrev VmM (C A : Type) : Type → Type := ExceptT MapError (Prog (Shared C A))

namespace Vm

variable {C A : Type}

/-- A step that cannot fail. -/
def access {α : Type} (step : Prog (Shared C A) α) : VmM C A α := ExceptT.lift step

def readWord (table : PhysAddr) (i : Fin entryCount) : Prog (Shared C A) Word :=
  .atomic fun s => (readEntry s.sys.mem table i, s)

/-- Replace the memory by what an access makes of it. -/
def changeMem (change : Mem → Mem) : Prog (Shared C A) PUnit :=
  .atomic fun s => (⟨⟩, { s with sys := { s.sys with mem := change s.sys.mem } })

def writeWord (table : PhysAddr) (i : Fin entryCount) (w : Word) :
    Prog (Shared C A) PUnit :=
  changeMem fun m => writeEntry m table i w

/-- `as_x86(aspace).pml4_phys`. -/
def loadRoot (aspace : AddressSpace) : Prog (Shared C A) PhysAddr :=
  .atomic fun s => ((s.sys.asX86 aspace).pml4Phys, s)

/-- `nxe_enabled()`. -/
def loadNxe : Prog (Shared C A) Bool :=
  .atomic fun s => (s.sys.nxeEnabled, s)

/-- `flush_tlb_page` on CPU `c`. -/
def flushTlbPage [DecidableEq C] (c : C) (v : VirtAddr) : Prog (Shared C A) PUnit :=
  .atomic fun s =>
    (⟨⟩, { s with tlb := Function.update s.tlb c (s.tlb c ++ [.invlpg v]) })

def takeFrame [PageTableFrameAlloc A] : Prog (Shared C A) (Option PhysAddr) :=
  .atomic fun s =>
    let answer := allocFrame4k s.sys.ptAlloc s.sys.mem
    (answer.1, { s with sys := { s.sys with ptAlloc := answer.2.1, mem := answer.2.2 } })

def giveFrame [PageTableFrameAlloc A] (frame : PhysAddr) : Prog (Shared C A) PUnit :=
  .atomic fun s =>
    (⟨⟩, { s with sys := { s.sys with ptAlloc := freeFrame4k s.sys.ptAlloc frame } })

/-- `alloc_frame_4k().ok_or(OutOfMemory)?`. -/
def requestFrame [PageTableFrameAlloc A] : VmM C A PhysAddr := do
  match ← access takeFrame with
  | none => throw .outOfMemory
  | some frame => return frame

/-- `ensure_table`. -/
def ensureTable [PageTableFrameAlloc A] (parent : PhysAddr) (idx : Fin entryCount)
    (user : Bool) : VmM C A PhysAddr := do
  let entry ← access (readWord parent idx)
  if present entry then
    return entry &&& addrMask
  else
    let frame ← requestFrame
    access (changeMem fun m => zeroFrame m frame)
    access (writeWord parent idx (tableEntry frame user))
    return frame

/-- `map_4k`. -/
def map4k [PageTableFrameAlloc A] [DecidableEq C] (c : C) (aspace : AddressSpace)
    (vaddr : VirtAddr) (paddr : PhysAddr) (flags : MapFlags) : VmM C A PUnit := do
  if !aligned4k vaddr || !aligned4k paddr then
    throw .unaligned
  if !isCanonical vaddr then
    throw .invalidArgs
  let user := flags.contains .user
  let root ← access (loadRoot aspace)
  let pdptPhys ← ensureTable root (pml4Index vaddr) user
  let pdPhys ← ensureTable pdptPhys (pdptIndex vaddr) user
  let ptPhys ← ensureTable pdPhys (pdIndex vaddr) user
  let idx := ptIndex vaddr
  if present (← access (readWord ptPhys idx)) then
    throw .alreadyMapped
  let nxe ← access loadNxe
  access (writeWord ptPhys idx ((paddr &&& addrMask) ||| flagsToPte nxe flags))
  access (flushTlbPage c vaddr)

/-- The descent of `unmap_4k`, `protect_4k` and `translate` to the page table. -/
def walkToPt (root : PhysAddr) (vaddr : VirtAddr) : Prog (Shared C A) (Option PhysAddr) := do
  let e1 ← readWord root (pml4Index vaddr)
  if !present e1 then return none
  let e2 ← readWord (e1 &&& addrMask) (pdptIndex vaddr)
  if !present e2 then return none
  let e3 ← readWord (e2 &&& addrMask) (pdIndex vaddr)
  if !present e3 then return none
  return some (e3 &&& addrMask)

/-- `unmap_4k` and `protect_4k` up to the point where the leaf is known to be
present. -/
def findLeaf (aspace : AddressSpace) (vaddr : VirtAddr) : VmM C A PhysAddr := do
  if !aligned4k vaddr then
    throw .unaligned
  if !isCanonical vaddr then
    throw .invalidArgs
  let root ← access (loadRoot aspace)
  match ← access (walkToPt root vaddr) with
  | none => throw .notMapped
  | some pt =>
      if !present (← access (readWord pt (ptIndex vaddr))) then
        throw .notMapped
      return pt

/-- `unmap_4k`. -/
def unmap4k [DecidableEq C] (c : C) (aspace : AddressSpace) (vaddr : VirtAddr) :
    VmM C A PUnit := do
  let pt ← findLeaf aspace vaddr
  access (writeWord pt (ptIndex vaddr) 0)
  access (flushTlbPage c vaddr)

/-- `protect_4k`, which reads the leaf a second time for its address. -/
def protect4k [DecidableEq C] (c : C) (aspace : AddressSpace) (vaddr : VirtAddr)
    (flags : MapFlags) : VmM C A PUnit := do
  let pt ← findLeaf aspace vaddr
  let paddr := (← access (readWord pt (ptIndex vaddr))) &&& addrMask
  let nxe ← access loadNxe
  access (writeWord pt (ptIndex vaddr) (paddr ||| flagsToPte nxe flags))
  access (flushTlbPage c vaddr)

/-- `translate`. -/
def translate (aspace : AddressSpace) (vaddr : VirtAddr) :
    Prog (Shared C A) (Except TranslateError PhysAddr) := do
  if !isCanonical vaddr then
    return .error .invalidAddress
  let root ← loadRoot aspace
  match ← walkToPt root vaddr with
  | none => return .error .notMapped
  | some pt =>
      let e4 ← readWord pt (ptIndex vaddr)
      if !present e4 then
        return .error .notMapped
      return .ok ((e4 &&& addrMask) ||| (vaddr &&& 0xfff))

/-- The writes of `init_kernel`. -/
def adoptKernel (cr3 : PhysAddr) (index : Fin maxCpus) : Prog (Shared C A) PUnit :=
  .atomic fun s =>
    (⟨⟩, { s with
      sys :=
        { s.sys with
          kas := some ⟨cr3⟩
          kasHandle := some .kas
          currentPerCpu := Function.update s.sys.currentPerCpu index (some .kas) } })

/-- `init_kernel`. -/
def initKernel (cpu : Cpu) : VmM C A AddressSpace := do
  let handle ← access (.atomic fun s => (s.sys.kasHandle, s))
  match handle with
  | some h => return h
  | none =>
      let cr3 := cpu.cr3 &&& addrMask
      if cr3 == 0 then
        throw .invalidArgs
      else
        access (adoptKernel cr3 cpu.index)
        return .kas

/-- The search of `alloc_slot` and the filling of the slot it finds. -/
def takeSlot (pml4Phys : PhysAddr) : Prog (Shared C A) (Option (Fin maxAddressSpaces)) :=
  .atomic fun s =>
    match (List.finRange maxAddressSpaces).find? fun i => !(s.sys.asSlots i).used with
    | some i =>
        let slot := { used := true, space := ⟨pml4Phys⟩, handle := some (.slot i) }
        (some i, { s with
          sys := { s.sys with asSlots := Function.update s.sys.asSlots i slot } })
    | none => (none, s)

/-- `address_space_new`. -/
def addressSpaceNew [PageTableFrameAlloc A] (cpu : Cpu) : VmM C A AddressSpace := do
  let _ ← initKernel cpu
  let kas ← access (.atomic fun s => (s.sys.kas, s))
  match kas with
  | none => throw .invalidArgs
  | some kernel =>
      let pml4 ← requestFrame
      access (changeMem fun m => zeroFrame m pml4)
      access (changeMem fun m => copyEntries m kernel.pml4Phys pml4 kernelPml4Start)
      match ← access (takeSlot pml4) with
      | some i => return .slot i
      | none => throw .outOfMemory

/-- One loop of `address_space_destroy`: for each entry that is present and not
a large page, the body on the table it points to. -/
def forTables (table : PhysAddr) (body : PhysAddr → Prog (Shared C A) PUnit) :
    List (Fin entryCount) → Prog (Shared C A) PUnit
  | [] => pure ⟨⟩
  | i :: rest => do
      let e ← readWord table i
      if !present e then pure ⟨⟩
      else if e &&& ptePs != 0 then pure ⟨⟩
      else body (e &&& addrMask)
      forTables table body rest

/-- `address_space_destroy`. -/
def addressSpaceDestroy [PageTableFrameAlloc A] (aspace : AddressSpace) :
    Prog (Shared C A) PUnit := do
  let handle ← Prog.atomic fun s => (s.sys.kasHandle, s)
  if handle == some aspace then
    return ⟨⟩
  let all := List.finRange entryCount
  let root ← loadRoot aspace
  forTables root
    (fun pdptPhys => do
      forTables pdptPhys
        (fun pdPhys => do
          forTables pdPhys giveFrame all
          giveFrame pdPhys) all
      giveFrame pdptPhys)
    (all.filter (· < kernelPml4Start))
  giveFrame root
  .atomic fun s =>
    (⟨⟩, { s with sys := { s.sys with toMachine := freeSlot s.sys.toMachine aspace } })

end Vm

/-! ### Calls -/

/-- A call of the service. -/
inductive VmCall where
  | newAddressSpace (cpu : Cpu)
  | destroyAddressSpace (aspace : AddressSpace)
  | map4k (aspace : AddressSpace) (v : VirtAddr) (p : PhysAddr) (flags : MapFlags)
  | unmap4k (aspace : AddressSpace) (v : VirtAddr)
  | protect4k (aspace : AddressSpace) (v : VirtAddr) (flags : MapFlags)
  | translate (aspace : AddressSpace) (v : VirtAddr)

/-- What a call returns; a call that returns no value is given its handle. -/
inductive VmResult where
  | handle (result : Except MapError AddressSpace)
  | address (result : Except TranslateError PhysAddr)
deriving DecidableEq

namespace VmCall

variable {C A : Type}

/-- Whether the call takes the lock of `PT_ALLOC` for its duration. -/
def locks : VmCall → Bool
  | .newAddressSpace _ | .destroyAddressSpace _ | .map4k .. => true
  | .unmap4k .. | .protect4k .. | .translate .. => false

/-- The address space the call is made on. -/
def target : VmCall → Option AddressSpace
  | .newAddressSpace _ => none
  | .destroyAddressSpace aspace | .map4k aspace .. | .unmap4k aspace _
  | .protect4k aspace .. | .translate aspace _ => some aspace

/-- The call borrows its address space shared, not exclusively. -/
def shares : VmCall → Bool
  | .translate .. => true
  | _ => false

/-- The address argument of the call, if it has one, is in the lower half. -/
def Lower : VmCall → Prop
  | .map4k _ v _ _ | .unmap4k _ v | .protect4k _ v _ | .translate _ v => LowerHalf v
  | .newAddressSpace _ | .destroyAddressSpace _ => True

/-- The accesses of the call on CPU `c`. -/
def program [PageTableFrameAlloc A] [DecidableEq C] (c : C) :
    VmCall → Prog (Shared C A) VmResult
  | .newAddressSpace cpu => do
      let result ← (Vm.addressSpaceNew cpu).run
      return .handle result
  | .destroyAddressSpace aspace => do
      Vm.addressSpaceDestroy aspace
      return .handle (.ok aspace)
  | .map4k aspace v p flags => do
      let result ← (Vm.map4k c aspace v p flags).run
      return .handle (result.map fun _ => aspace)
  | .unmap4k aspace v => do
      let result ← (Vm.unmap4k c aspace v).run
      return .handle (result.map fun _ => aspace)
  | .protect4k aspace v flags => do
      let result ← (Vm.protect4k c aspace v flags).run
      return .handle (result.map fun _ => aspace)
  | .translate aspace v => do
      let result ← Vm.translate aspace v
      return .address result

/-- The call as one uninterrupted function of the backend. -/
def exec [PageTableFrameAlloc A] : VmCall → Sys A → VmResult × Sys A
  | .newAddressSpace cpu, s =>
      let outcome := (addressSpaceNew cpu).exec s
      (.handle outcome.1, outcome.2)
  | .destroyAddressSpace aspace, s =>
      (.handle (.ok aspace), addressSpaceDestroy aspace s)
  | .map4k aspace v p flags, s =>
      let outcome := (RincOs.map4k aspace v p flags).exec s
      (.handle (outcome.1.map fun _ => aspace), outcome.2)
  | .unmap4k aspace v, s =>
      let outcome := (RincOs.unmap4k aspace v).exec s
      (.handle (outcome.1.map fun _ => aspace), outcome.2)
  | .protect4k aspace v flags, s =>
      let outcome := (RincOs.protect4k aspace v flags).exec s
      (.handle (outcome.1.map fun _ => aspace), outcome.2)
  | .translate aspace v, s => (.address (RincOs.translate s.toMachine aspace v), s)

end VmCall

/-! ### The CPUs together -/

/-- A call in the order of the starts; no result yet while it is under way. -/
structure CallRecord (C : Type) where
  cpu : C
  call : VmCall
  result : Option VmResult

/-- The CPUs, what each of them is doing, and who holds the lock of `PT_ALLOC`.
`handles` are the address spaces that `new_address_space` has returned and
nobody has destroyed; `log` has the latest call first. -/
structure VmState (C A : Type) where
  shared : Shared C A
  running : C → Option (VmCall × Prog (Shared C A) VmResult)
  lock : Option C
  handles : Fin maxAddressSpaces → Bool
  log : List (CallRecord C)

namespace VmState

variable {C A : Type}

/-- No call was made yet. -/
def initial (shared : Shared C A) : VmState C A :=
  { shared := shared
    running := fun _ => none
    lock := none
    handles := fun _ => false
    log := [] }

/-- What the signatures ask of a caller: the call is on an address space it was given, at a
lower-half address, and nobody else uses the space unless both only read. -/
structure MayStart (s : VmState C A) (call : VmCall) : Prop where
  given : ∀ aspace, call.target = some aspace → ∃ a, aspace = .slot a ∧ s.handles a = true
  exclusive : ∀ c other program, s.running c = some (other, program) →
    call.target ≠ none → other.target = call.target →
      call.shares = true ∧ other.shares = true
  lower : call.Lower

/-- The caller of `destroy_address_space` gives its handle away. -/
def handlesAtStart (handles : Fin maxAddressSpaces → Bool) :
    VmCall → Fin maxAddressSpaces → Bool
  | .destroyAddressSpace (.slot a) => Function.update handles a false
  | _ => handles

/-- The caller of `new_address_space` gets one. -/
def handlesAtReturn (handles : Fin maxAddressSpaces → Bool) :
    VmCall → VmResult → Fin maxAddressSpaces → Bool
  | .newAddressSpace _, .handle (.ok (.slot a)) => Function.update handles a true
  | _, _ => handles

/-- Enter the result of the call under way on CPU `c`. -/
def closeRecord [DecidableEq C] (c : C) (result : VmResult) (record : CallRecord C) :
    CallRecord C :=
  if record.cpu = c ∧ record.result.isNone then { record with result := some result }
  else record

end VmState

section

variable {C A : Type} [PageTableFrameAlloc A] [DecidableEq C]

/-- One step of one CPU: it enters a call (waiting for the lock is no step), makes
one access, or returns. -/
inductive VmStep : VmState C A → VmState C A → Prop where
  | start {s : VmState C A} (c : C) (call : VmCall) (idle : s.running c = none)
      (free : call.locks = true → s.lock = none) (may : s.MayStart call) :
      VmStep s
        { s with
          running := Function.update s.running c (some (call, call.program c))
          lock := if call.locks then some c else s.lock
          handles := VmState.handlesAtStart s.handles call
          log := ⟨c, call, none⟩ :: s.log }
  | access {s : VmState C A} (c : C) {call : VmCall} {act : Shared C A → Shared C A}
      {next : Shared C A → Prog (Shared C A) VmResult}
      (underWay : s.running c = some (call, .step act next)) :
      VmStep s
        { s with
          shared := act s.shared
          running := Function.update s.running c (some (call, next s.shared)) }
  | ret {s : VmState C A} (c : C) {call : VmCall} {result : VmResult}
      (underWay : s.running c = some (call, .done result)) :
      VmStep s
        { s with
          running := Function.update s.running c none
          lock := if call.locks then none else s.lock
          handles := VmState.handlesAtReturn s.handles call result
          log := s.log.map (VmState.closeRecord c result) }

/-- Any interleaving of the CPUs. -/
inductive VmRun (start : VmState C A) : VmState C A → Prop where
  | refl : VmRun start start
  | step {s s' : VmState C A} (before : VmRun start s) (next : VmStep s s') : VmRun start s'

end

end RincOs
