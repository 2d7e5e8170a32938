/-
Module: RincOs.Arch.Smp
Purpose: The parts of the backend that depend on the executing CPU: its index in
  the per-CPU table, the active address space, TLB maintenance and shootdowns.
Trusted boundary: human-reviewed embedding of `arch/x86_64/src/{apic,mmu}.rs`,
  human-reviewed model of what TLB maintenance evicts with CR4.PGE set
Main exports:
  ApicMode, cpuId, cpuIndex, Machine.activate, Machine.current, Smp, TlbEntry,
  TlbOp.evicts, CpuAction, shootdownTlbPage, shootdownTlbAll, handleTlbShootdown
-/
import RincOs.Proofs.EntryBits

namespace RincOs

/-! ### Local APIC -/

/-- `APIC_MODE`. -/
inductive ApicMode where
  | none
  | xapic
  | x2apic
deriving DecidableEq, Repr

/-- The mode `apic::init` leaves; `hasX2apic` is `cpuid::has_x2apic()`. -/
def apicInit (hasX2apic : Bool) : ApicMode := if hasX2apic then .x2apic else .xapic

/-- `cpu_id`, where `reg` is what the `LAPIC_ID` register of the CPU reads. -/
def cpuId (mode : ApicMode) (reg : BitVec 32) : BitVec 32 :=
  match mode with
  | .xapic => reg >>> 24
  | .x2apic => reg
  | .none => 0

/-- `cpu_index`. -/
def cpuIndex (mode : ApicMode) (reg : BitVec 32) : Fin maxCpus :=
  let id := (cpuId mode reg).toNat
  if inRange : id < maxCpus then ⟨id, inRange⟩ else ⟨0, by decide⟩

/-! ### The active address space -/

/-- `activate` on the CPU with the given index: the new value of its CR3 and the
statics. -/
def Machine.activate (k : Machine) (index : Fin maxCpus) (aspace : AddressSpace) :
    Word × Machine :=
  let cr3 := (k.asX86 aspace).pml4Phys &&& addrMask
  (cr3,
    { k with
      currentPerCpu := Function.update k.currentPerCpu index (some aspace)
      tlbOps := k.tlbOps ++ [.writeCr3 cr3] })

/-- `current` on the CPU with the given index; `none` is the panic of `expect`. -/
def Machine.current (k : Machine) (index : Fin maxCpus) : Option AddressSpace :=
  k.currentPerCpu index

/-- The machine and its CPUs. -/
structure Smp (C A : Type) extends Sys A where
  apicMode : ApicMode
  cr3 : C → Word

namespace Smp

variable {C A : Type} (lapicId : C → BitVec 32) (s : Smp C A)

/-- `cpu_index()` on CPU `c`, whose `LAPIC_ID` register reads `lapicId c`. -/
def index (c : C) : Fin maxCpus := cpuIndex s.apicMode (lapicId c)

/-- What CPU `c` contributes to a call. -/
def cpu (c : C) : Cpu := { cr3 := s.cr3 c, index := s.index lapicId c }

/-- `activate` on CPU `c`. -/
def activate [DecidableEq C] (c : C) (aspace : AddressSpace) : Smp C A :=
  let (cr3, machine) := s.toMachine.activate (s.index lapicId c) aspace
  { s with toMachine := machine, cr3 := Function.update s.cr3 c cr3 }

/-- `current` on CPU `c`. -/
def current (c : C) : Option AddressSpace := s.toMachine.current (s.index lapicId c)

@[simp] theorem cr3_activate [DecidableEq C] (c : C) (aspace : AddressSpace) :
    (s.activate lapicId c aspace).cr3 =
      Function.update s.cr3 c ((s.asX86 aspace).pml4Phys &&& addrMask) := rfl

@[simp] theorem asX86_activate [DecidableEq C] (c : C) (aspace other : AddressSpace) :
    (s.activate lapicId c aspace).asX86 other = s.asX86 other := by
  cases other <;> rfl

theorem current_activate [DecidableEq C] (c d : C) (aspace : AddressSpace) :
    (s.activate lapicId c aspace).current lapicId d =
      if s.index lapicId d = s.index lapicId c then some aspace else s.current lapicId d :=
  Function.update_apply s.currentPerCpu (s.index lapicId c) (some aspace) (s.index lapicId d)

end Smp

/-! ### TLB -/

/-- A cached translation of one page, with the G bit of the leaf it was read
from. -/
structure TlbEntry (α : Type) where
  page : Nat
  global : Bool
  content : α
deriving DecidableEq

/-- Which entries a maintenance instruction evicts while CR4.PGE is set: `invlpg`
those of its page, a write of CR3 those that are not global. -/
def TlbOp.evicts {α : Type} : TlbOp → TlbEntry α → Bool
  | .invlpg v, entry => entry.page == pageOf v
  | .writeCr3 _, entry => !entry.global

/-- What a CPU does to TLBs: maintain its own, or interrupt all other CPUs. -/
inductive CpuAction where
  | tlb (op : TlbOp)
  | ipiOthers (vector : BitVec 8)

def tlbShootdownVec : BitVec 8 := 0xe1

/-- `send_ipi_all_others`. -/
def sendIpiAllOthers (mode : ApicMode) (vector : BitVec 8) : List CpuAction :=
  if mode = .none then [] else [.ipiOthers vector]

/-- `flush_tlb_all`: CR3 is read and written back. -/
def flushTlbAll (cr3 : Word) : List CpuAction := [.tlb (.writeCr3 cr3)]

/-- `shootdown_tlb_page`. -/
def shootdownTlbPage (mode : ApicMode) (v : VirtAddr) : List CpuAction :=
  .tlb (.invlpg v) :: sendIpiAllOthers mode tlbShootdownVec

/-- `shootdown_tlb_all`. -/
def shootdownTlbAll (mode : ApicMode) (cr3 : Word) : List CpuAction :=
  flushTlbAll cr3 ++ sendIpiAllOthers mode tlbShootdownVec

/-- `handle_tlb_shootdown`. -/
def handleTlbShootdown (cr3 : Word) : List CpuAction := flushTlbAll cr3

end RincOs
