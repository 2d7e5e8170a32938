/-
Module: RincOs.Arch.Lapic
Purpose: The local APIC as a device, the two ways a processor reaches its
  registers, and the driver `arch/x86_64/src/apic.rs` over them.
Trusted boundary: human-reviewed embedding of `apic.rs`, `msr.rs` and
  `cpuid::has_x2apic`; human-reviewed model of the local APIC, of its modes and
  of the direct map
Main exports:
  Lapic, Lapic.writeReg, Lapic.writeBase, highestVector, reservedBits, ApicMachine,
  ApicMachine.read, ApicMachine.write, ApicMachine.init, ApicMachine.cpuId,
  ApicMachine.sendIpiAllOthers, ApicMachine.eoi
-/
import RincOs.Arch.Idt
import RincOs.Arch.Tsc

namespace RincOs

/-! ### Registers -/

namespace ApicReg

/-- `LAPIC_ID`, and below the other offsets `apic.rs` uses. -/
def id : BitVec 32 := 0x020
def eoi : BitVec 32 := 0x0b0
def svr : BitVec 32 := 0x0f0
def icrLow : BitVec 32 := 0x300
def icrHigh : BitVec 32 := 0x310
def lvtTimer : BitVec 32 := 0x320
def timerDiv : BitVec 32 := 0x3e0

end ApicReg

/-- `APIC_BASE_ENABLE`. -/
def apicBaseEnable : Word := 1 <<< 11

/-- `APIC_BASE_X2APIC`. -/
def apicBaseX2apic : Word := 1 <<< 10

/-- `SVR_APIC_ENABLE`. -/
def svrApicEnable : BitVec 32 := 1 <<< 8

/-- The mask bit of an entry of the local vector table. -/
def lvtMasked : BitVec 32 := 1 <<< 16

/-- `LVT_MODE_TSC_DEADLINE`. -/
def lvtModeTscDeadline : BitVec 32 := 0b10 <<< 17

/-- `ICR_DELIVERY_PENDING`. -/
def icrDeliveryPending : BitVec 32 := 1 <<< 12

/-- `IA32_APIC_BASE`. -/
def ia32ApicBase : BitVec 32 := 0x1b

/-! ### The device -/

structure Lapic where
  /-- The value of `IA32_APIC_BASE`. -/
  apicBase : Word
  id : BitVec 32
  svr : BitVec 32
  lvtTimer : BitVec 32
  timerDiv : BitVec 32
  icrLow : BitVec 32
  icrHigh : BitVec 32
  /-- Interrupts that were requested, and those in service. -/
  irr : BitVec 8 → Bool
  isr : BitVec 8 → Bool
  /-- Both halves of the command register for each IPI sent. -/
  sent : List (BitVec 32 × BitVec 32)
  /-- How many reads find an IPI still on its way after it was sent, and how many the
  last one has left. -/
  latency : Nat
  onItsWay : Nat

/-- The vector of the highest priority in a set. -/
def highestVector (vectors : BitVec 8 → Bool) : Option (BitVec 8) :=
  ((List.range 256).reverse.map (BitVec.ofNat 8)).find? vectors

namespace Lapic

/-- The EN and EXTD bits of `IA32_APIC_BASE`. -/
def enabled (l : Lapic) : Bool := l.apicBase.getLsbD 11

def extended (l : Lapic) : Bool := l.apicBase.getLsbD 10

/-- The frame in which the registers appear while the device is in xAPIC mode. -/
def frame (l : Lapic) : PhysAddr := l.apicBase &&& addrMask

/-- `IA32_APIC_BASE` is written; `none` is a general protection fault.  EXTD needs
a processor with x2APIC and cannot be set together with EN, nor cleared alone. -/
def writeBase (hasX2apic : Bool) (l : Lapic) (val : Word) : Option Lapic :=
  let enable := val.getLsbD 11
  let extend := val.getLsbD 10
  if extend && !(hasX2apic && enable && l.enabled) then none
  else if l.extended && enable && !extend then none
  else some { l with apicBase := val }

/-- The interrupt of the highest priority is no longer in service. -/
def retire (l : Lapic) : Lapic :=
  match highestVector l.isr with
  | some vec => { l with isr := Function.update l.isr vec false }
  | none => l

/-- A register is written.  While the software enable bit is clear, entries of the
local vector table are masked. -/
def writeReg (l : Lapic) (off val : BitVec 32) : Lapic :=
  if off = ApicReg.eoi then l.retire
  else if off = ApicReg.svr then
    { l with
      svr := val
      lvtTimer := if val.getLsbD 8 then l.lvtTimer else l.lvtTimer ||| lvtMasked }
  else if off = ApicReg.lvtTimer then
    { l with lvtTimer := if l.svr.getLsbD 8 then val else val ||| lvtMasked }
  else if off = ApicReg.timerDiv then { l with timerDiv := val }
  else if off = ApicReg.icrHigh then { l with icrHigh := val }
  else if off = ApicReg.icrLow then
    { l with icrLow := val, sent := l.sent ++ [(l.icrHigh, val)], onItsWay := l.latency }
  else l

/-- A register is written by its MSR.  The command register is then one register of 64
bits without a delivery status. -/
def writeMsr (l : Lapic) (off : BitVec 32) (val : Word) : Lapic :=
  let low : BitVec 32 := val.setWidth 32
  if off = ApicReg.icrLow then
    let high : BitVec 32 := (val >>> 32).setWidth 32
    { l with icrLow := low, icrHigh := high, sent := l.sent ++ [(high, low)], onItsWay := 0 }
  else l.writeReg off low

/-- The command register with its delivery status. -/
def readIcrLow (l : Lapic) : BitVec 32 × Lapic :=
  match l.onItsWay with
  | 0 => (l.icrLow &&& ~~~icrDeliveryPending, l)
  | left + 1 => (l.icrLow ||| icrDeliveryPending, { l with onItsWay := left })

/-- A register is read. -/
def readReg (l : Lapic) (off : BitVec 32) : BitVec 32 × Lapic :=
  if off = ApicReg.id then (l.id, l)
  else if off = ApicReg.svr then (l.svr, l)
  else if off = ApicReg.lvtTimer then (l.lvtTimer, l)
  else if off = ApicReg.timerDiv then (l.timerDiv, l)
  else if off = ApicReg.icrHigh then (l.icrHigh, l)
  else if off = ApicReg.icrLow then l.readIcrLow
  else (0, l)

/-- An interrupt is requested. -/
def request (l : Lapic) (vec : BitVec 8) : Lapic :=
  { l with irr := Function.update l.irr vec true }

/-- The processor takes an interrupt over. -/
def acknowledge (l : Lapic) (vec : BitVec 8) : Lapic :=
  { l with
    irr := Function.update l.irr vec false
    isr := Function.update l.isr vec true }

end Lapic

/-! ### Access paths -/

/-- `cpuid::has_x2apic`. -/
def hasX2apic (cpuid : Cpuid) : Bool := (cpuid 1).ecx &&& (1 <<< 21) != 0

/-- The bits of a register that the processor has no use for.  The timer's entry has its
higher mode bit only with the TSC deadline mode, and the EOI register takes no value but 0. -/
def reservedBits (hasTscDeadline : Bool) (off : BitVec 32) : BitVec 32 :=
  if off = ApicReg.eoi then 0xffffffff
  else if off = ApicReg.svr then 0xffffec00
  else if off = ApicReg.lvtTimer then if hasTscDeadline then 0xfff8ef00 else 0xfffcef00
  else if off = ApicReg.timerDiv then 0xfffffff4
  else if off = ApicReg.icrHigh then 0x00ffffff
  else if off = ApicReg.icrLow then 0xfff33000
  else 0

/-- The processor with its local APIC and the rest of physical memory in 32-bit
words, and the statics of `apic.rs`. -/
structure ApicMachine where
  cpuid : Cpuid
  /-- The offset at which the page tables show physical memory. -/
  hhdm : Word
  lapic : Lapic
  ram : PhysAddr → BitVec 32
  /-- `APIC_MODE`. -/
  mode : ApicMode
  /-- `LAPIC_BASE_VIRT`. -/
  baseVirt : Word

namespace ApicMachine

/-- The processor with another state of its device. -/
def onDevice (m : ApicMachine) (lapic : Lapic) : ApicMachine := { m with lapic := lapic }

@[simp] theorem lapic_onDevice (m : ApicMachine) (lapic : Lapic) :
    (m.onDevice lapic).lapic = lapic := rfl

@[simp] theorem mode_onDevice (m : ApicMachine) (lapic : Lapic) :
    (m.onDevice lapic).mode = m.mode := rfl

@[simp] theorem onDevice_onDevice (m : ApicMachine) (lapic lapic' : Lapic) :
    (m.onDevice lapic).onDevice lapic' = m.onDevice lapic' := rfl

@[simp] theorem onDevice_lapic (m : ApicMachine) : m.onDevice m.lapic = m := rfl

/-- The register behind an MSR, in x2APIC mode. -/
def msrReg (msr : BitVec 32) : BitVec 32 := (msr - 0x800) <<< 4

/-- The MSRs at which a local APIC in x2APIC mode shows its registers. -/
def IsApicMsr (m : ApicMachine) (msr : BitVec 32) : Prop :=
  m.lapic.enabled = true ∧ m.lapic.extended = true ∧ 0x800 ≤ msr ∧ msr < 0x840 ∧
    msrReg msr ≠ ApicReg.icrHigh

instance (m : ApicMachine) (msr : BitVec 32) : Decidable (m.IsApicMsr msr) :=
  inferInstanceAs (Decidable (_ ∧ _))

/-- `rdmsr`; `none` is a general protection fault. -/
def rdmsr (m : ApicMachine) (msr : BitVec 32) : Option (Word × ApicMachine) :=
  if msr = ia32ApicBase then some (m.lapic.apicBase, m)
  else if m.IsApicMsr msr ∧ msrReg msr ≠ ApicReg.eoi then
    let (val, lapic) := m.lapic.readReg (msrReg msr)
    some (val.setWidth 64, m.onDevice lapic)
  else none

/-- The processor takes the value for the MSR: the ID cannot be written, no reserved bit can
be set, and the command register alone has a higher half. -/
def AcceptsMsr (m : ApicMachine) (msr : BitVec 32) (val : Word) : Prop :=
  m.IsApicMsr msr ∧ msrReg msr ≠ ApicReg.id ∧
    val.setWidth 32 &&& reservedBits (hasTscDeadline m.cpuid) (msrReg msr) = 0 ∧
    (msrReg msr ≠ ApicReg.icrLow → val >>> 32 = 0)

instance (m : ApicMachine) (msr : BitVec 32) (val : Word) : Decidable (m.AcceptsMsr msr val) :=
  inferInstanceAs (Decidable (_ ∧ _))

/-- `wrmsr`. -/
def wrmsr (m : ApicMachine) (msr : BitVec 32) (val : Word) : Option ApicMachine :=
  if msr = ia32ApicBase then
    (m.lapic.writeBase (hasX2apic m.cpuid) val).map m.onDevice
  else if m.AcceptsMsr msr val then some (m.onDevice (m.lapic.writeMsr (msrReg msr) val))
  else none

/-- The address reaches the registers of the local APIC. -/
def IsMmio (m : ApicMachine) (phys : PhysAddr) : Prop :=
  m.lapic.enabled = true ∧ m.lapic.extended = false ∧ InFrame m.lapic.frame phys

instance (m : ApicMachine) (phys : PhysAddr) : Decidable (m.IsMmio phys) :=
  inferInstanceAs (Decidable (_ ∧ _))

/-- `read_volatile` of a 32-bit word in the direct map. -/
def readVolatile (m : ApicMachine) (addr : VirtAddr) : BitVec 32 × ApicMachine :=
  let phys := addr - m.hhdm
  if m.IsMmio phys then
    let (val, lapic) := m.lapic.readReg ((phys - m.lapic.frame).setWidth 32)
    (val, m.onDevice lapic)
  else (m.ram phys, m)

/-- `write_volatile`.  The device drops reserved bits. -/
def writeVolatile (m : ApicMachine) (addr : VirtAddr) (val : BitVec 32) : ApicMachine :=
  let phys := addr - m.hhdm
  if m.IsMmio phys then
    let off : BitVec 32 := (phys - m.lapic.frame).setWidth 32
    let val := val &&& ~~~reservedBits (hasTscDeadline m.cpuid) off
    m.onDevice (m.lapic.writeReg off val)
  else { m with ram := Function.update m.ram phys val }

/-! ### The driver -/

/-- `apic_msr`. -/
def apicMsr (off : BitVec 32) : BitVec 32 := 0x800 + (off >>> 4)

/-- `apic::read`. -/
def read (m : ApicMachine) (off : BitVec 32) : Option (BitVec 32 × ApicMachine) :=
  match m.mode with
  | .x2apic => (m.rdmsr (apicMsr off)).map fun answer => (answer.1.setWidth 32, answer.2)
  | .xapic => some (m.readVolatile (m.baseVirt + off.setWidth 64))
  | .none => some (0, m)

/-- `apic::write`. -/
def write (m : ApicMachine) (off val : BitVec 32) : Option ApicMachine :=
  match m.mode with
  | .x2apic => m.wrmsr (apicMsr off) (val.setWidth 64)
  | .xapic => some (m.writeVolatile (m.baseVirt + off.setWidth 64) val)
  | .none => some m

/-- The writes at the end of both branches of `apic::init`. -/
def program (m : ApicMachine) : Option ApicMachine := do
  let m ← m.write ApicReg.svr (svrApicEnable ||| 0xff)
  let m ← m.write ApicReg.timerDiv 0b1011
  let m ← m.write ApicReg.lvtTimer (timerVec.setWidth 32 ||| lvtModeTscDeadline)
  let (_, m) ← m.read ApicReg.id
  return m

/-- `apic::init`. -/
def init (hhdmOffset : Word) (m : ApicMachine) : Option (Bool × ApicMachine) := do
  if hasX2apic m.cpuid then
    let (apicBase, m) ← m.rdmsr ia32ApicBase
    let m ← m.wrmsr ia32ApicBase (apicBase ||| apicBaseEnable ||| apicBaseX2apic)
    let m ← program { m with mode := .x2apic }
    return (true, m)
  else
    let (apicBase, m) ← m.rdmsr ia32ApicBase
    let apicPhys := apicBase &&& 0xfffff000
    let m ← m.wrmsr ia32ApicBase (apicBase ||| apicBaseEnable)
    let m ← program { m with mode := .xapic, baseVirt := apicPhys + hhdmOffset }
    return (true, m)

/-- `apic::cpu_id`. -/
def cpuId (m : ApicMachine) : Option (BitVec 32 × ApicMachine) :=
  (m.read ApicReg.id).map fun answer => (RincOs.cpuId m.mode answer.1, answer.2)

/-- The loop of `send_ipi_all_others`, for so many reads at most; `none` if it has not
ended by then. -/
def awaitDelivery : Nat → ApicMachine → Option ApicMachine
  | 0, _ => none
  | fuel + 1, m => do
      let (low, m) ← m.read ApicReg.icrLow
      if low &&& icrDeliveryPending != 0 then awaitDelivery fuel m else return m

/-- `apic::send_ipi_all_others`. -/
def sendIpiAllOthers (fuel : Nat) (vector : BitVec 8) (m : ApicMachine) :
    Option ApicMachine := do
  if m.mode = .none then return m
  let icr : BitVec 32 := vector.setWidth 32 ||| (0b11 <<< 18)
  if m.mode = .xapic then
    let m ← m.write ApicReg.icrHigh 0
    let m ← m.write ApicReg.icrLow icr
    awaitDelivery fuel m
  else
    m.write ApicReg.icrLow icr

/-- `apic::eoi`. -/
def eoi (m : ApicMachine) : Option ApicMachine :=
  if m.mode ≠ .none then m.write ApicReg.eoi 0 else some m

end ApicMachine

end RincOs
