/-
Module: RincOs.Arch.Features
Purpose: The processor features the kernel turns on at boot: SSE, write protection,
  global pages and NX, and the flush of the whole TLB that goes with NX.
Trusted boundary: human-reviewed embedding of `enable_sse` of `arch/x86_64/src/lib.rs`,
  of `init_features`, `enable_nx` and `flush_tlb_all_global` of `mmu.rs` and of
  `cpuid::has_nx`; human-reviewed effect of control register writes on the TLB
Main exports:
  ControlRegs, RegWrite, RegWrite.evicts, Control, Control.put, hasNx,
  Control.enableSse, Control.flushTlbAllGlobal, Control.initFeatures, Control.enableNx
-/
import RincOs.Arch.Smp
import RincOs.Arch.Tsc

namespace RincOs

/-! ### Registers -/

def cr0Wp : Word := 1 <<< 16
def cr4Pge : Word := 1 <<< 7
def eferLma : Word := 1 <<< 10
def eferNxe : Word := 1 <<< 11

/-- `cpuid::has_nx`. -/
def hasNx (cpuid : Cpuid) : Bool :=
  if (cpuid 0x80000000).eax < 0x80000001 then false
  else (cpuid 0x80000001).edx &&& (1 <<< 20) != 0

/-- The control registers and `IA32_EFER`. -/
structure ControlRegs where
  cr0 : Word
  cr3 : Word
  cr4 : Word
  efer : Word
deriving DecidableEq

inductive RegWrite where
  | cr0 (val : Word)
  | cr3 (val : Word)
  | cr4 (val : Word)
  | efer (val : Word)
deriving DecidableEq

/-- The registers after a write; `none` is a general protection fault.  NXE cannot be set on
a processor without NX.  LMA is read-only: processors differ in whether they ignore a write that
changes it or refuse it. -/
def ControlRegs.write (cpuid : Cpuid) (strictLma : Bool) (r : ControlRegs) :
    RegWrite → Option ControlRegs
  | .cr0 val => some { r with cr0 := val }
  | .cr3 val => some { r with cr3 := val }
  | .cr4 val => some { r with cr4 := val }
  | .efer val =>
      if val &&& eferNxe != 0 && !hasNx cpuid then none
      else if strictLma && (val ^^^ r.efer) &&& eferLma != 0 then none
      else some { r with efer := (val &&& ~~~eferLma) ||| (r.efer &&& eferLma) }

def ControlRegs.pge (r : ControlRegs) : Bool := r.cr4 &&& cr4Pge != 0

def ControlRegs.nxe (r : ControlRegs) : Bool := r.efer &&& eferNxe != 0

def ControlRegs.lma (r : ControlRegs) : Bool := r.efer &&& eferLma != 0

/-- The TLB entries a write evicts from the state `r` on: a write of CR3 those that are
not global, or all if global pages are off; a change of CR4.PGE all. -/
def RegWrite.evicts {α : Type} (r : ControlRegs) : RegWrite → TlbEntry α → Bool
  | .cr3 _, entry => !r.pge || !entry.global
  | .cr4 val, _ => (val &&& cr4Pge != 0) != r.pge
  | .cr0 _, _ | .efer _, _ => false

/-- A processor with its registers and the writes made so far, each with the registers
before it, the oldest first. -/
structure Control where
  cpuid : Cpuid
  /-- The processor refuses a change of LMA, as AMD documents it; Intel's ignore it. -/
  strictLma : Bool
  regs : ControlRegs
  log : List (ControlRegs × RegWrite)

namespace Control

def put (c : Control) (write : RegWrite) : Option Control :=
  (c.regs.write c.cpuid c.strictLma write).map fun regs =>
    { c with regs := regs, log := c.log ++ [(c.regs, write)] }

/-! ### Features -/

/-- `enable_sse`. -/
def enableSse (c : Control) : Option Control := do
  let cr0 := c.regs.cr0
  let cr0 := cr0 &&& ~~~((1 : Word) <<< 2)
  let cr0 := cr0 &&& ~~~((1 : Word) <<< 3)
  let cr0 := cr0 ||| 1 <<< 1
  let cr0 := cr0 ||| 1 <<< 5
  let c ← c.put (.cr0 cr0)
  let cr4 := c.regs.cr4
  let cr4 := cr4 ||| 1 <<< 9
  let cr4 := cr4 ||| 1 <<< 10
  c.put (.cr4 cr4)

/-- `flush_tlb_all_global`. -/
def flushTlbAllGlobal (c : Control) : Option Control := do
  let cr4 := c.regs.cr4
  if cr4 &&& cr4Pge != 0 then
    let c ← c.put (.cr4 (cr4 &&& ~~~cr4Pge))
    let c ← c.put (.cr3 c.regs.cr3)
    c.put (.cr4 cr4)
  else c.put (.cr3 c.regs.cr3)

/-- `init_features`, with the new value of `NXE_ENABLED`.  It clears LMA in what it writes to
`IA32_EFER`. -/
def initFeatures (enableNx : Bool) (c : Control) : Option (Bool × Control) := do
  let cr0 := c.regs.cr0
  let cr4 := c.regs.cr4
  let c ← c.put (.cr0 (cr0 ||| cr0Wp))
  let c ← c.put (.cr4 (cr4 ||| cr4Pge))
  if enableNx && hasNx c.cpuid then
    let efer := c.regs.efer
    if efer &&& eferNxe == 0 then
      let efer := efer ||| eferNxe
      let efer := efer &&& ~~~eferLma
      let c ← c.put (.efer efer)
      return (efer &&& eferNxe != 0, c)
    else return (efer &&& eferNxe != 0, c)
  else return (false, c)

/-- `enable_nx`, with the old and the new value of `NXE_ENABLED`; it never returns an
error. -/
def enableNx (nxeEnabled : Bool) (c : Control) : Option (Bool × Control) :=
  if nxeEnabled then some (nxeEnabled, c)
  else if !hasNx c.cpuid then some (nxeEnabled, c)
  else do
    let (nxe, c) ← c.initFeatures true
    let c ← c.flushTlbAllGlobal
    return (nxe, c)

end Control

end RincOs
