/-
Module: RincOs.Proofs.ApicDriver
Purpose: The APIC driver reaches its device.  After `apic::init` the accesses by
  MSR and by memory do the same to the registers, and `init` gets there exactly
  if the timer has the TSC deadline mode and the firmware left the APIC where the
  driver can find it.
Trusted boundary: none
Main exports:
  ApicMachine.Ready, ApicMachine.write_ready, ApicMachine.read_ready, ApicEvent,
  Lapic.perform, ApicMachine.perform, ApicMachine.perform_all_ready,
  ApicMachine.init_x2apic, ApicMachine.init_xapic, ApicMachine.init_cases,
  ApicMachine.Reaches, apicInit_reaches_iff
-/
import RincOs.Library.WordField
import RincOs.Arch.Lapic

namespace RincOs

/-! ### One access

An access ends in the device, in the page that the driver took for the device, or in an
exception; which of these depends on the mode, on the base register and on the bits of
the value. -/

/-- The registers `apic.rs` uses. -/
def driverRegs : List (BitVec 32) :=
  [ApicReg.id, ApicReg.eoi, ApicReg.svr, ApicReg.icrLow, ApicReg.icrHigh, ApicReg.lvtTimer,
    ApicReg.timerDiv]

namespace ApicMachine

/-- The statics of the driver fit the mode of the device. -/
def Ready (m : ApicMachine) : Prop :=
  m.lapic.enabled = true ∧
    match m.mode with
    | .x2apic => m.lapic.extended = true
    | .xapic => m.lapic.extended = false ∧ m.baseVirt - m.hhdm = m.lapic.frame
    | .none => False

variable {m : ApicMachine} {off val : BitVec 32}

theorem Ready.mode_ne_none (ready : m.Ready) : m.mode ≠ .none := by
  intro mode
  rw [Ready, mode] at ready
  exact ready.2

theorem Ready.mode (ready : m.Ready) :
    m.mode = .x2apic ∧ m.lapic.extended = true ∨ m.mode = .xapic := by
  rw [Ready] at ready
  split at ready
  · exact Or.inl ⟨by assumption, ready.2⟩
  · exact Or.inr (by assumption)
  · exact ready.2.elim

/-- The MSR of a register shows this register. -/
theorem apicMsr_reg : ∀ off ∈ driverRegs,
    msrReg (apicMsr off) = off ∧ apicMsr off ≠ ia32ApicBase ∧ 0x800 ≤ apicMsr off ∧
      apicMsr off < 0x840 :=
  List.forall_iff_forall_mem.mp (by decide)

theorem reg_small : ∀ off ∈ driverRegs, off.toNat < 4096 :=
  List.forall_iff_forall_mem.mp (by decide)

theorem write_x2apic (mode : m.mode = .x2apic) (off val : BitVec 32) :
    m.write off val = m.wrmsr (apicMsr off) (val.setWidth 64) := by
  rw [write, mode]

theorem write_xapic (mode : m.mode = .xapic) (off val : BitVec 32) :
    m.write off val = some (m.writeVolatile (m.baseVirt + off.setWidth 64) val) := by
  rw [write, mode]

theorem read_x2apic (mode : m.mode = .x2apic) (off : BitVec 32) :
    m.read off =
      (m.rdmsr (apicMsr off)).map fun answer => (answer.1.setWidth 32, answer.2) := by
  rw [read, mode]

theorem read_xapic (mode : m.mode = .xapic) (off : BitVec 32) :
    m.read off = some (m.readVolatile (m.baseVirt + off.setWidth 64)) := by
  rw [read, mode]

/-- In xAPIC mode the address of a register reaches it. -/
theorem isMmio_reg (enabled : m.lapic.enabled = true) (extended : m.lapic.extended = false)
    (base : m.baseVirt - m.hhdm = m.lapic.frame) (isReg : off ∈ driverRegs) :
    m.IsMmio (m.baseVirt + off.setWidth 64 - m.hhdm) ∧
      (m.baseVirt + off.setWidth 64 - m.hhdm - m.lapic.frame).setWidth 32 = off := by
  have small := reg_small off isReg
  have place : m.baseVirt + off.setWidth 64 - m.hhdm - m.lapic.frame = off.setWidth 64 := by
    rw [← base]
    bv_omega
  refine ⟨⟨enabled, extended, ?_⟩, ?_⟩
  · rw [InFrame, place, pageSize, BitVec.lt_def, BitVec.toNat_setWidth,
      Nat.mod_eq_of_lt (by omega)]
    exact small
  · rw [place]
    apply BitVec.eq_of_toNat_eq
    simp only [BitVec.toNat_setWidth]
    omega

/-- By MSR a driver's register takes a value without reserved bits. -/
theorem acceptsMsr_iff (ready : m.Ready) (mode : m.mode = .x2apic) (isReg : off ∈ driverRegs)
    (notHigh : off ≠ ApicReg.icrHigh) (notId : off ≠ ApicReg.id) :
    m.AcceptsMsr (apicMsr off) (val.setWidth 64) ↔
      val &&& reservedBits (hasTscDeadline m.cpuid) off = 0 := by
  obtain ⟨reg, -, low, high⟩ := apicMsr_reg off isReg
  have extended : m.lapic.extended = true := by
    have fits := ready.2
    rwa [mode] at fits
  have valid : m.IsApicMsr (apicMsr off) := ⟨ready.1, extended, low, high, by rwa [reg]⟩
  have word : (val.setWidth 64).setWidth 32 = val := by simp
  have upper : val.setWidth 64 >>> 32 = 0#64 := by
    have range := val.isLt
    apply BitVec.eq_of_toNat_eq
    simp only [BitVec.toNat_setWidth, BitVec.toNat_ushiftRight, Nat.shiftRight_eq_div_pow,
      BitVec.toNat_ofNat]
    omega
  rw [AcceptsMsr, reg, word]
  exact ⟨fun accepted => accepted.2.2.1, fun clear => ⟨valid, notId, clear, fun _ => upper⟩⟩

/-- By memory a register is written without the reserved bits. -/
theorem write_mmio (ready : m.Ready) (mode : m.mode = .xapic) (isReg : off ∈ driverRegs)
    (val : BitVec 32) :
    m.write off val =
      some (m.onDevice (m.lapic.writeReg off
        (val &&& ~~~reservedBits (hasTscDeadline m.cpuid) off))) := by
  obtain ⟨enabled, fits⟩ := ready
  rw [mode] at fits
  obtain ⟨mmio, reg⟩ := isMmio_reg enabled fits.1 fits.2 isReg
  rw [write_xapic mode, writeVolatile, if_pos mmio, reg]

/-- A write of the driver is a write of the register. -/
theorem write_ready (ready : m.Ready) (isReg : off ∈ driverRegs)
    (clear : val &&& reservedBits (hasTscDeadline m.cpuid) off = 0)
    (x2apic : m.mode = .x2apic → off ≠ ApicReg.icrLow ∧ off ≠ ApicReg.icrHigh ∧
      off ≠ ApicReg.id) :
    m.write off val = some (m.onDevice (m.lapic.writeReg off val)) := by
  rcases ready.mode with ⟨mode, -⟩ | mode
  · obtain ⟨reg, notBase, -⟩ := apicMsr_reg off isReg
    obtain ⟨notIcr, notHigh, notId⟩ := x2apic mode
    have accepted := (acceptsMsr_iff ready mode isReg notHigh notId).mpr clear
    have same : m.lapic.writeMsr off (val.setWidth 64) = m.lapic.writeReg off val := by
      simp [Lapic.writeMsr, notIcr]
    rw [write_x2apic mode, wrmsr, if_neg notBase, if_pos accepted, reg, same]
  · rw [write_mmio ready mode isReg, WordField.and_not_eq_self clear]

/-- A read of the driver is a read of the register. -/
theorem read_ready (ready : m.Ready) (isReg : off ∈ driverRegs)
    (x2apic : m.mode = .x2apic → off ≠ ApicReg.icrHigh ∧ off ≠ ApicReg.eoi) :
    m.read off =
      some ((m.lapic.readReg off).1, m.onDevice (m.lapic.readReg off).2) := by
  obtain ⟨enabled, fits⟩ := ready
  split at fits
  · rename_i mode
    obtain ⟨reg, notBase, low, high⟩ := apicMsr_reg off isReg
    obtain ⟨notHigh, notEoi⟩ := x2apic mode
    have valid : m.IsApicMsr (apicMsr off) := ⟨enabled, fits, low, high, by rwa [reg]⟩
    have allowed : m.IsApicMsr (apicMsr off) ∧ msrReg (apicMsr off) ≠ ApicReg.eoi := by
      rw [reg]
      exact ⟨valid, notEoi⟩
    rw [read_x2apic mode, rdmsr, if_neg notBase, if_pos allowed, reg]
    simp
  · rename_i mode
    obtain ⟨mmio, reg⟩ := isMmio_reg enabled fits.1 fits.2 isReg
    rw [read_xapic mode, readVolatile, if_pos mmio, reg]
  · exact fits.elim

end ApicMachine

/-! ### Whole operations -/

/-- Writes of the driver do not move the device. -/
theorem Lapic.apicBase_writeReg (l : Lapic) (off val : BitVec 32) :
    (l.writeReg off val).apicBase = l.apicBase := by
  simp only [Lapic.writeReg, Lapic.retire]
  split_ifs
  · split <;> rfl
  all_goals rfl

/-- The command for an interrupt of all other processors. -/
def allOthers (vector : BitVec 8) : BitVec 32 := vector.setWidth 32 ||| (0b11 <<< 18)

/-- Neither the vector nor the shorthand is a reserved bit. -/
theorem allOthers_clear (hasTscDeadline : Bool) (vector : BitVec 8) :
    allOthers vector &&& reservedBits hasTscDeadline ApicReg.icrLow = 0 := by
  have mask : reservedBits hasTscDeadline ApicReg.icrLow = 0xfff33000 := by
    cases hasTscDeadline <;> decide
  rw [mask]
  revert vector
  decide +kernel

/-- The device after an IPI to all others was sent and has left. -/
def Lapic.broadcast (l : Lapic) (vector : BitVec 8) : Lapic :=
  { l with
    icrHigh := 0
    icrLow := allOthers vector
    sent := l.sent ++ [(0, allOthers vector)]
    onItsWay := 0 }

namespace ApicMachine

variable {m : ApicMachine}

theorem Ready.onDevice (ready : m.Ready) {lapic : Lapic}
    (base : lapic.apicBase = m.lapic.apicBase) : (m.onDevice lapic).Ready := by
  rw [Ready, Lapic.enabled, Lapic.extended, Lapic.frame] at ready ⊢
  rw [lapic_onDevice, base]
  exact ready

theorem eoi_ready (ready : m.Ready) : m.eoi = some (m.onDevice m.lapic.retire) := by
  have written : m.write ApicReg.eoi 0 = _ :=
    write_ready ready (by decide) BitVec.zero_and fun _ => ⟨by decide, by decide, by decide⟩
  rw [eoi, if_pos ready.mode_ne_none, written]
  rfl

/-- The mode decides what `cpu_id` makes of the register. -/
theorem cpuId_ready (ready : m.Ready) :
    m.cpuId = some (RincOs.cpuId m.mode m.lapic.id, m) := by
  rw [cpuId, read_ready ready (by decide) fun _ => ⟨by decide, by decide⟩]
  rfl

/-- What a read of the command register finds. -/
theorem readIcrLow_cases (l : Lapic) :
    l.readIcrLow.1 &&& icrDeliveryPending = 0 ∧ l.onItsWay = 0 ∧ l.readIcrLow.2 = l ∨
      l.readIcrLow.1 &&& icrDeliveryPending ≠ 0 ∧
        ∃ left, l.onItsWay = left + 1 ∧ l.readIcrLow.2 = { l with onItsWay := left } := by
  unfold Lapic.readIcrLow
  cases l.onItsWay with
  | zero =>
      refine Or.inl ⟨?_, rfl, rfl⟩
      rw [BitVec.and_assoc, BitVec.not_and_self]
      exact BitVec.and_zero
  | succ left =>
      refine Or.inr ⟨fun clear => ?_, left, rfl, rfl⟩
      have bit := congrArg (fun w => BitVec.getLsbD w 12) clear
      simp [icrDeliveryPending] at bit

theorem readReg_icrLow (l : Lapic) : l.readReg ApicReg.icrLow = l.readIcrLow := by
  simp [Lapic.readReg, ApicReg.icrLow, ApicReg.id, ApicReg.svr, ApicReg.lvtTimer,
    ApicReg.timerDiv, ApicReg.icrHigh]

theorem awaitDelivery_succ (ready : m.Ready) (fuel : Nat) :
    awaitDelivery (fuel + 1) m =
      if m.lapic.readIcrLow.1 &&& icrDeliveryPending ≠ 0 then
        awaitDelivery fuel (m.onDevice m.lapic.readIcrLow.2)
      else some (m.onDevice m.lapic.readIcrLow.2) := by
  rw [awaitDelivery, read_ready ready (by decide) fun _ => ⟨by decide, by decide⟩,
    readReg_icrLow]
  simp

/-- The loop ends with the IPI. -/
theorem awaitDelivery_ready (fuel : Nat) {m : ApicMachine} (ready : m.Ready)
    (enough : m.lapic.onItsWay < fuel) :
    awaitDelivery fuel m = some (m.onDevice { m.lapic with onItsWay := 0 }) := by
  induction fuel generalizing m with
  | zero => omega
  | succ fuel inductionHypothesis =>
      rw [awaitDelivery_succ ready]
      rcases readIcrLow_cases m.lapic with ⟨clear, gone, same⟩ | ⟨set, left, before, after⟩
      · have still : ({ m.lapic with onItsWay := 0 } : Lapic) = m.lapic := by rw [← gone]
        rw [if_neg (not_not.mpr clear), same, still]
      · rw [if_pos set, after]
        have onward : left < fuel := by omega
        exact inductionHypothesis (ready.onDevice rfl) onward

theorem writeReg_icr (l : Lapic) (vector : BitVec 8) :
    (l.writeReg ApicReg.icrHigh 0).writeReg ApicReg.icrLow (allOthers vector) =
      { l.broadcast vector with onItsWay := l.latency } := by
  simp [Lapic.writeReg, Lapic.broadcast, ApicReg.eoi, ApicReg.svr, ApicReg.lvtTimer,
    ApicReg.timerDiv, ApicReg.icrHigh, ApicReg.icrLow]

theorem writeMsr_icr (l : Lapic) (vector : BitVec 8) :
    l.writeMsr ApicReg.icrLow ((allOthers vector).setWidth 64) = l.broadcast vector := by
  have low : ((allOthers vector).setWidth 64).setWidth 32 = allOthers vector := by simp
  have high : ((allOthers vector).setWidth 64 >>> 32).setWidth 32 = 0#32 := by
    have range := (allOthers vector).isLt
    apply BitVec.eq_of_toNat_eq
    simp only [BitVec.toNat_setWidth, BitVec.toNat_ushiftRight, Nat.shiftRight_eq_div_pow,
      BitVec.toNat_ofNat]
    omega
  rw [Lapic.writeMsr, if_pos rfl, low, high]
  rfl

theorem sendIpiAllOthers_x2apic (mode : m.mode = .x2apic) (fuel : Nat) (vector : BitVec 8) :
    m.sendIpiAllOthers fuel vector = m.write ApicReg.icrLow (allOthers vector) := by
  simp [sendIpiAllOthers, mode, allOthers]

theorem sendIpiAllOthers_xapic (mode : m.mode = .xapic) (fuel : Nat) (vector : BitVec 8) :
    m.sendIpiAllOthers fuel vector =
      (m.write ApicReg.icrHigh 0).bind fun m =>
        (m.write ApicReg.icrLow (allOthers vector)).bind (awaitDelivery fuel) := by
  simp [sendIpiAllOthers, mode, allOthers]

/-- By memory and by MSR the same command leaves the processor. -/
theorem sendIpiAllOthers_ready (ready : m.Ready) (vector : BitVec 8) {fuel : Nat}
    (enough : m.lapic.latency < fuel) :
    m.sendIpiAllOthers fuel vector = some (m.onDevice (m.lapic.broadcast vector)) := by
  have clear := allOthers_clear (hasTscDeadline m.cpuid) vector
  rcases ready.mode with ⟨mode, -⟩ | mode
  · have accepted := (acceptsMsr_iff ready mode (by decide) (by decide) (by decide)).mpr clear
    rw [sendIpiAllOthers_x2apic mode, write_x2apic mode, wrmsr, if_neg (by decide),
      if_pos accepted, ← writeMsr_icr]
    rfl
  · have byMemory : m.mode ≠ .x2apic := by simp [mode]
    have high : m.write ApicReg.icrHigh 0 =
        some (m.onDevice (m.lapic.writeReg ApicReg.icrHigh 0)) :=
      write_ready ready (by decide) BitVec.zero_and fun msr => absurd msr byMemory
    have readyHigh := ready.onDevice (m.lapic.apicBase_writeReg ApicReg.icrHigh 0)
    have low : (m.onDevice (m.lapic.writeReg ApicReg.icrHigh 0)).write ApicReg.icrLow
        (allOthers vector) =
          some (m.onDevice ((m.lapic.writeReg ApicReg.icrHigh 0).writeReg ApicReg.icrLow
            (allOthers vector))) :=
      write_ready readyHigh (by decide) clear fun msr => absurd msr byMemory
    rw [sendIpiAllOthers_xapic mode, high, Option.bind_some, low, Option.bind_some,
      writeReg_icr]
    exact awaitDelivery_ready fuel (ready.onDevice rfl) enough

end ApicMachine

/-! ### Runs of the driver and the device -/

/-- The driver is called, an interrupt is requested, or the processor takes one. -/
inductive ApicEvent where
  | eoi
  | sendIpiAllOthers (vector : BitVec 8)
  | cpuId
  | request (vec : BitVec 8)
  | take (vec : BitVec 8)

/-- What an event is to the registers of the device. -/
def Lapic.perform (l : Lapic) : ApicEvent → Lapic
  | .eoi => l.retire
  | .sendIpiAllOthers vector => l.broadcast vector
  | .cpuId => l
  | .request vec => l.request vec
  | .take vec => l.acknowledge vec

/-- What an event is to the processor. -/
def ApicMachine.perform (fuel : Nat) (m : ApicMachine) : ApicEvent → Option ApicMachine
  | .eoi => m.eoi
  | .sendIpiAllOthers vector => m.sendIpiAllOthers fuel vector
  | .cpuId => m.cpuId.map Prod.snd
  | .request vec => some (m.onDevice (m.lapic.request vec))
  | .take vec => some (m.onDevice (m.lapic.acknowledge vec))

theorem Lapic.perform_keeps (l : Lapic) (event : ApicEvent) :
    (l.perform event).apicBase = l.apicBase ∧ (l.perform event).latency = l.latency := by
  cases event with
  | eoi =>
      rw [Lapic.perform, Lapic.retire]
      split <;> exact ⟨rfl, rfl⟩
  | _ => exact ⟨rfl, rfl⟩

namespace ApicMachine

variable {m : ApicMachine} {fuel : Nat}

theorem perform_ready (ready : m.Ready) (enough : m.lapic.latency < fuel) (event : ApicEvent) :
    m.perform fuel event = some (m.onDevice (m.lapic.perform event)) := by
  cases event with
  | eoi => exact eoi_ready ready
  | sendIpiAllOthers vector => exact sendIpiAllOthers_ready ready vector enough
  | cpuId =>
      rw [perform, cpuId_ready ready]
      rfl
  | request vec => rfl
  | take vec => rfl

/-- Every event of a run reaches the device, whichever path the driver takes to it. -/
theorem perform_all_ready (events : List ApicEvent) {m : ApicMachine} (ready : m.Ready)
    (enough : m.lapic.latency < fuel) :
    events.foldlM (perform fuel) m =
      some (m.onDevice (events.foldl Lapic.perform m.lapic)) := by
  induction events generalizing m with
  | nil => rfl
  | cons event events inductionHypothesis =>
      obtain ⟨base, latency⟩ := m.lapic.perform_keeps event
      rw [List.foldlM_cons, perform_ready ready enough]
      exact inductionHypothesis (ready.onDevice base) (latency.trans_lt enough)

end ApicMachine

/-! ### Initialization -/

/-- What `apic::init` writes to the entry of the timer. -/
def timerEntry : BitVec 32 := timerVec.setWidth 32 ||| lvtModeTscDeadline

/-- The entry as the device keeps it: without the TSC deadline mode the timer is left in
one-shot mode. -/
def keptTimerEntry (hasTscDeadline : Bool) : BitVec 32 :=
  timerEntry &&& ~~~reservedBits hasTscDeadline ApicReg.lvtTimer

theorem timerEntry_clear_iff {hasTscDeadline : Bool} :
    timerEntry &&& reservedBits hasTscDeadline ApicReg.lvtTimer = 0 ↔ hasTscDeadline = true := by
  cases hasTscDeadline <;> decide

theorem keptTimerEntry_eq_iff {hasTscDeadline : Bool} :
    keptTimerEntry hasTscDeadline = timerEntry ↔ hasTscDeadline = true := by
  cases hasTscDeadline <;> decide

/-- The device with the registers `apic::init` programs. -/
def Lapic.programmed (entry : BitVec 32) (l : Lapic) : Lapic :=
  { l with
    svr := svrApicEnable ||| 0xff
    timerDiv := 0b1011
    lvtTimer := entry }

/-- The device after `IA32_APIC_BASE` was written. -/
def Lapic.withBase (l : Lapic) (base : Word) : Lapic := { l with apicBase := base }

/-- The spurious vector register is written first, so the entry of the timer is not
masked. -/
theorem Lapic.writeReg_program (l : Lapic) (entry : BitVec 32) :
    ((l.writeReg ApicReg.svr (svrApicEnable ||| 0xff)).writeReg ApicReg.timerDiv
        0b1011).writeReg ApicReg.lvtTimer entry =
      l.programmed entry := by
  simp [Lapic.writeReg, Lapic.programmed, ApicReg.eoi, ApicReg.svr, ApicReg.lvtTimer,
    ApicReg.timerDiv, svrApicEnable]

namespace ApicMachine

variable {m : ApicMachine}

/-- The processor after the first two writes of `program`. -/
def withDivider (m : ApicMachine) : ApicMachine :=
  m.onDevice ((m.lapic.writeReg ApicReg.svr (svrApicEnable ||| 0xff)).writeReg ApicReg.timerDiv
    0b1011)

theorem Ready.withDivider (ready : m.Ready) : m.withDivider.Ready := by
  apply ready.onDevice
  rw [Lapic.apicBase_writeReg, Lapic.apicBase_writeReg]

/-- The first two writes are taken on both paths, on every processor. -/
theorem program_eq (ready : m.Ready) :
    m.program =
      (m.withDivider.write ApicReg.lvtTimer timerEntry).bind fun m =>
        (m.read ApicReg.id).bind fun answer => some answer.2 := by
  have clear : ∀ deadline : Bool,
      (svrApicEnable ||| 0xff) &&& reservedBits deadline ApicReg.svr = 0 ∧
        0b1011 &&& reservedBits deadline ApicReg.timerDiv = 0 := by decide
  have svr : m.write ApicReg.svr (svrApicEnable ||| 0xff) = _ :=
    write_ready ready (by decide) (clear _).1 fun _ => ⟨by decide, by decide, by decide⟩
  have ready' := ready.onDevice (m.lapic.apicBase_writeReg ApicReg.svr (svrApicEnable ||| 0xff))
  have div : (m.onDevice _).write ApicReg.timerDiv 0b1011 = _ :=
    write_ready ready' (by decide) (clear _).2 fun _ => ⟨by decide, by decide, by decide⟩
  rw [program, svr, Option.bind_eq_bind, Option.bind_some, div, Option.bind_eq_bind,
    Option.bind_some]
  rfl

/-- The last read changes nothing. -/
theorem program_of_write {lapic : Lapic} (ready : m.Ready)
    (written : m.withDivider.write ApicReg.lvtTimer timerEntry = some (m.onDevice lapic))
    (base : lapic.apicBase = m.lapic.apicBase) : m.program = some (m.onDevice lapic) := by
  have last : (m.onDevice lapic).read ApicReg.id = _ :=
    read_ready (ready.onDevice base) (by decide) fun _ => ⟨by decide, by decide⟩
  rw [program_eq ready, written, Option.bind_some, last]
  rfl

/-- By memory the registers are programmed on every processor. -/
theorem program_xapic (ready : m.Ready) (mode : m.mode = .xapic) :
    m.program =
      some (m.onDevice (m.lapic.programmed (keptTimerEntry (hasTscDeadline m.cpuid)))) := by
  refine program_of_write ready ?_ rfl
  rw [write_mmio ready.withDivider mode (by decide), ← Lapic.writeReg_program]
  rfl

/-- With the TSC deadline mode they are programmed on both paths. -/
theorem program_ready (ready : m.Ready) (deadline : hasTscDeadline m.cpuid = true) :
    m.program = some (m.onDevice (m.lapic.programmed timerEntry)) := by
  refine program_of_write ready ?_ rfl
  have clear : timerEntry &&& reservedBits (hasTscDeadline m.withDivider.cpuid)
      ApicReg.lvtTimer = 0 := timerEntry_clear_iff.mpr deadline
  rw [write_ready ready.withDivider (by decide) clear fun _ => ⟨by decide, by decide, by decide⟩,
    ← Lapic.writeReg_program]
  rfl

/-- Without it the entry of the timer is a general protection fault by MSR. -/
theorem program_faults (ready : m.Ready) (mode : m.mode = .x2apic)
    (missing : hasTscDeadline m.cpuid = false) : m.program = none := by
  have refused : ¬ m.withDivider.AcceptsMsr (apicMsr ApicReg.lvtTimer)
      (timerEntry.setWidth 64) := by
    rw [acceptsMsr_iff ready.withDivider mode (by decide) (by decide) (by decide),
      timerEntry_clear_iff]
    exact Bool.eq_false_iff.mp missing
  have faults : m.withDivider.write ApicReg.lvtTimer timerEntry = none := by
    rw [@write_x2apic m.withDivider mode, wrmsr, if_neg (by decide), if_neg refused]
  rw [program_eq ready, faults]
  rfl

/-- The address of the registers as `init` computes it. -/
theorem lowBase_eq_iff (base : Word) :
    base &&& 0xfffff000 = base &&& addrMask ↔ (base &&& addrMask).toNat < 2 ^ 32 := by
  have split : base &&& 0xfffff000 = base &&& addrMask &&& 0xffffffff := by
    rw [BitVec.and_assoc]
    rfl
  have low : (base &&& addrMask &&& 0xffffffff).toNat = (base &&& addrMask).toNat % 2 ^ 32 := by
    rw [BitVec.toNat_and]
    exact Nat.and_two_pow_sub_one_eq_mod _ 32
  rw [split, ← BitVec.toNat_inj, low]
  omega

/-- The processor before the registers are programmed, with x2APIC. -/
def adoptX2apic (m : ApicMachine) : ApicMachine :=
  { m.onDevice (m.lapic.withBase (m.lapic.apicBase ||| apicBaseEnable ||| apicBaseX2apic)) with
    mode := .x2apic }

/-- The same without x2APIC. -/
def adoptXapic (hhdmOffset : Word) (m : ApicMachine) : ApicMachine :=
  { m.onDevice (m.lapic.withBase (m.lapic.apicBase ||| apicBaseEnable)) with
    mode := .xapic
    baseVirt := (m.lapic.apicBase &&& 0xfffff000) + hhdmOffset }

theorem init_x2apic (has : hasX2apic m.cpuid = true) (hhdmOffset : Word) :
    m.init hhdmOffset =
      if m.lapic.enabled then m.adoptX2apic.program.bind fun m => some (true, m) else none := by
  have write : m.wrmsr ia32ApicBase (m.lapic.apicBase ||| apicBaseEnable ||| apicBaseX2apic) =
      if m.lapic.enabled then
        some (m.onDevice
          (m.lapic.withBase (m.lapic.apicBase ||| apicBaseEnable ||| apicBaseX2apic)))
      else none := by
    cases enabled : m.lapic.enabled <;>
      simp [wrmsr, Lapic.writeBase, has, enabled, apicBaseEnable, apicBaseX2apic, Lapic.withBase]
  cases enabled : m.lapic.enabled with
  | false =>
      rw [enabled] at write
      simp [init, has, rdmsr, write]
  | true =>
      rw [enabled] at write
      simp [init, has, rdmsr, write, adoptX2apic]

theorem init_xapic (has : hasX2apic m.cpuid = false) (extended : m.lapic.extended = false)
    (hhdmOffset : Word) :
    m.init hhdmOffset = (m.adoptXapic hhdmOffset).program.bind fun m => some (true, m) := by
  have bit : m.lapic.apicBase[10] = false := by simpa [Lapic.extended] using extended
  have write : m.wrmsr ia32ApicBase (m.lapic.apicBase ||| apicBaseEnable) =
      some (m.onDevice (m.lapic.withBase (m.lapic.apicBase ||| apicBaseEnable))) := by
    simp [wrmsr, Lapic.writeBase, extended, bit, apicBaseEnable, Lapic.withBase]
  simp [init, has, rdmsr, write, adoptXapic]

theorem adoptX2apic_ready : m.adoptX2apic.Ready := by
  refine ⟨?_, ?_⟩ <;>
    simp [adoptX2apic, Lapic.enabled, Lapic.extended, Lapic.withBase, apicBaseEnable,
      apicBaseX2apic]

/-- EN is no bit of the address. -/
theorem frame_adoptXapic : (m.adoptXapic m.hhdm).lapic.frame = m.lapic.frame := by
  have outside : apicBaseEnable &&& addrMask = 0 := by decide
  simp only [adoptXapic, onDevice, Lapic.frame, Lapic.withBase]
  rw [BitVec.and_or_distrib_right, outside]
  exact BitVec.or_zero

theorem enabled_adoptXapic : (m.adoptXapic m.hhdm).lapic.enabled = true := by
  simp [adoptXapic, Lapic.enabled, Lapic.withBase, apicBaseEnable]

theorem extended_adoptXapic (extended : m.lapic.extended = false) :
    (m.adoptXapic m.hhdm).lapic.extended = false := by
  have bit : m.lapic.apicBase[10] = false := by simpa [Lapic.extended] using extended
  simp [adoptXapic, Lapic.extended, Lapic.withBase, apicBaseEnable, bit]

theorem base_adoptXapic :
    (m.adoptXapic m.hhdm).baseVirt - (m.adoptXapic m.hhdm).hhdm =
      m.lapic.apicBase &&& 0xfffff000 := by
  simp only [adoptXapic, onDevice]
  bv_omega

theorem adoptXapic_ready (extended : m.lapic.extended = false)
    (low : m.lapic.frame.toNat < 2 ^ 32) : (m.adoptXapic m.hhdm).Ready := by
  refine ⟨enabled_adoptXapic, extended_adoptXapic extended, ?_⟩
  rw [base_adoptXapic, frame_adoptXapic]
  exact (lowBase_eq_iff _).mpr low

/-- The registers are not where the driver looks for them. -/
structure Astray (m : ApicMachine) : Prop where
  mode : m.mode = .xapic
  base : IsFrame (m.baseVirt - m.hhdm)
  missed : m.baseVirt - m.hhdm ≠ m.lapic.frame

theorem Astray.not_mmio (astray : m.Astray) {off : BitVec 32} (isReg : off ∈ driverRegs) :
    ¬ m.IsMmio (m.baseVirt + off.setWidth 64 - m.hhdm) := by
  rintro ⟨-, -, inside⟩
  have small := reg_small off isReg
  have place : m.baseVirt + off.setWidth 64 - m.hhdm - (m.baseVirt - m.hhdm) =
      off.setWidth 64 := by bv_omega
  have own : InFrame (m.baseVirt - m.hhdm) (m.baseVirt + off.setWidth 64 - m.hhdm) := by
    rw [InFrame, place, pageSize, BitVec.lt_def, BitVec.toNat_setWidth,
      Nat.mod_eq_of_lt (by omega)]
    exact small
  exact astray.missed (frame_eq_of_inFrame astray.base (isFrame_and_addrMask _) own inside)

/-- The processor with other contents of memory. -/
def onRam (m : ApicMachine) (ram : PhysAddr → BitVec 32) : ApicMachine := { m with ram := ram }

theorem Astray.onRam (astray : m.Astray) (ram : PhysAddr → BitVec 32) : (m.onRam ram).Astray :=
  ⟨astray.mode, astray.base, astray.missed⟩

/-- A write goes to memory, where a read will find it. -/
theorem Astray.write (astray : m.Astray) (off : BitVec 32) (isReg : off ∈ driverRegs)
    (val : BitVec 32) :
    ∃ ram, m.write off val = some (m.onRam ram) ∧
      (m.onRam ram).read off = some (val, m.onRam ram) := by
  refine ⟨Function.update m.ram (m.baseVirt + off.setWidth 64 - m.hhdm) val, ?_, ?_⟩
  · rw [write_xapic astray.mode, writeVolatile, if_neg (astray.not_mmio isReg)]
    rfl
  · rw [read_xapic (astray.onRam _).mode, readVolatile, if_neg ((astray.onRam _).not_mmio isReg)]
    simp [ApicMachine.onRam]

theorem Astray.read (astray : m.Astray) (off : BitVec 32) (isReg : off ∈ driverRegs) :
    ∃ val, m.read off = some (val, m) := by
  rw [read_xapic astray.mode, readVolatile, if_neg (astray.not_mmio isReg)]
  exact ⟨_, rfl⟩

/-- The registers are programmed in memory. -/
theorem Astray.program (astray : m.Astray) : ∃ ram, m.program = some (m.onRam ram) := by
  obtain ⟨one, svr, -⟩ := astray.write ApicReg.svr (by decide) (svrApicEnable ||| 0xff)
  obtain ⟨two, div, -⟩ := (astray.onRam one).write ApicReg.timerDiv (by decide) 0b1011
  obtain ⟨three, lvt, -⟩ := ((astray.onRam one).onRam two).write ApicReg.lvtTimer
    (by decide) timerEntry
  obtain ⟨id, last⟩ := (((astray.onRam one).onRam two).onRam three).read ApicReg.id
    (by decide)
  refine ⟨three, ?_⟩
  rw [timerEntry] at lvt
  simp only [ApicMachine.program, svr, div, lvt, last, Option.bind_eq_bind, Option.bind_some]
  rfl

theorem allOthers_status : ∀ vector : BitVec 8,
    allOthers vector &&& icrDeliveryPending = 0 := by
  decide +kernel

/-- An IPI is written to memory and goes nowhere. -/
theorem Astray.sendIpiAllOthers (astray : m.Astray) (fuel : Nat) (vector : BitVec 8) :
    ∃ ram, m.sendIpiAllOthers (fuel + 1) vector = some (m.onRam ram) := by
  obtain ⟨one, high, -⟩ := astray.write ApicReg.icrHigh (by decide) 0
  obtain ⟨two, low, status⟩ := (astray.onRam one).write ApicReg.icrLow (by decide)
    (allOthers vector)
  refine ⟨two, ?_⟩
  rw [sendIpiAllOthers_xapic astray.mode, high, Option.bind_some, low, Option.bind_some,
    awaitDelivery, status]
  simp [allOthers_status]
  rfl

/-- Above 4 GiB `init` cuts the address of the registers off. -/
theorem adoptXapic_astray (high : ¬ m.lapic.frame.toNat < 2 ^ 32) :
    (m.adoptXapic m.hhdm).Astray := by
  refine ⟨rfl, ?_, ?_⟩
  · have inside : (0xfffff000 : Word) &&& addrMask = 0xfffff000 := by decide
    rw [base_adoptXapic, IsFrame, BitVec.and_assoc, inside]
  · rw [base_adoptXapic, frame_adoptXapic]
    exact fun same => high ((lowBase_eq_iff _).mp same)

end ApicMachine

/-! ### When the driver works -/

/-- Every operation of the driver is one of the device, at any point of any run. -/
def ApicMachine.Reaches (m : ApicMachine) : Prop :=
  ∀ (fuel : Nat) (events : List ApicEvent), m.lapic.latency < fuel →
    events.foldlM (ApicMachine.perform fuel) m =
      some (m.onDevice (events.foldl Lapic.perform m.lapic))

/-- Where the driver finds the device. -/
def ApicMachine.Findable (m : ApicMachine) : Prop :=
  if hasX2apic m.cpuid then m.lapic.enabled = true else m.lapic.frame.toNat < 2 ^ 32

/-- EXTD is set on processors with x2APIC only, and not without EN. -/
def ApicMachine.Sane (m : ApicMachine) : Prop :=
  m.lapic.extended = true → m.lapic.enabled = true ∧ hasX2apic m.cpuid = true

theorem ApicMachine.Sane.extended {m : ApicMachine} (sane : m.Sane)
    (has : hasX2apic m.cpuid = false) : m.lapic.extended = false := by
  by_contra set
  have known := (sane (by simpa using set)).2
  rw [has] at known
  cases known

/-- Initialization where the device can be found: the driver gets to it, or faults. -/
theorem ApicMachine.init_cases {m : ApicMachine} (sane : m.Sane) (findable : m.Findable) :
    (∃ base m', m.init m.hhdm = some (true, m') ∧ m'.ram = m.ram ∧ m'.cpuid = m.cpuid ∧
        m'.lapic = (m.lapic.withBase base).programmed (keptTimerEntry (hasTscDeadline m.cpuid)) ∧
        m'.Ready) ∨
      m.init m.hhdm = none ∧ hasTscDeadline m.cpuid = false := by
  cases has : hasX2apic m.cpuid with
  | true =>
      rw [ApicMachine.Findable, if_pos has] at findable
      have ready := @ApicMachine.adoptX2apic_ready m
      have started := ApicMachine.init_x2apic has m.hhdm
      rw [if_pos findable] at started
      cases deadline : hasTscDeadline m.cpuid with
      | true =>
          rw [ApicMachine.program_ready ready deadline] at started
          refine .inl ⟨m.lapic.apicBase ||| apicBaseEnable ||| apicBaseX2apic, _, started, rfl,
            rfl, ?_, ready.onDevice rfl⟩
          rw [keptTimerEntry_eq_iff.mpr rfl]
          rfl
      | false =>
          rw [ApicMachine.program_faults ready rfl deadline] at started
          exact .inr ⟨started, rfl⟩
  | false =>
      rw [ApicMachine.Findable, if_neg (by simp [has])] at findable
      have ready := ApicMachine.adoptXapic_ready (sane.extended has) findable
      have started := ApicMachine.init_xapic has (sane.extended has) m.hhdm
      rw [ApicMachine.program_xapic ready rfl] at started
      exact .inl ⟨m.lapic.apicBase ||| apicBaseEnable, _, started, rfl, rfl, rfl,
        ready.onDevice rfl⟩

/-- What happens where the device cannot be found: the driver faults, or an IPI does not get
into the list of those sent. -/
theorem ApicMachine.init_lost {m : ApicMachine} (sane : m.Sane) (lost : ¬ m.Findable)
    {m' : ApicMachine} (done : m.init m.hhdm = some (true, m')) : ¬ m'.Reaches := by
  intro reaches
  rw [ApicMachine.Findable] at lost
  cases has : hasX2apic m.cpuid with
  | true =>
      rw [if_pos has] at lost
      rw [ApicMachine.init_x2apic has, if_neg lost] at done
      cases done
  | false =>
      rw [if_neg (by simp [has])] at lost
      have astray := ApicMachine.adoptXapic_astray lost
      obtain ⟨ram, programmed⟩ := astray.program
      rw [ApicMachine.init_xapic has (sane.extended has), programmed] at done
      cases done
      obtain ⟨ram', sent⟩ := (astray.onRam ram).sendIpiAllOthers m.lapic.latency 0
      have same := reaches (m.lapic.latency + 1) [.sendIpiAllOthers 0] (Nat.lt_succ_self _)
      have both := Option.some.inj (same.symm.trans ((bind_pure _).trans sent))
      have lists := congrArg (fun m : ApicMachine => m.lapic.sent.length) both
      simp [Lapic.perform, Lapic.broadcast, ApicMachine.onRam] at lists

/-- Initialization programs the device as the driver means it, leaves memory alone and makes
the device reachable: exactly if the timer has the TSC deadline mode and the firmware left the
device enabled, or on a processor without x2APIC left its registers below 4 GiB. -/
theorem apicInit_reaches_iff (m : ApicMachine) (sane : m.Sane) :
    (∃ base m', m.init m.hhdm = some (true, m') ∧ m'.ram = m.ram ∧
        m'.lapic = (m.lapic.withBase base).programmed timerEntry ∧ m'.Reaches) ↔
      hasTscDeadline m.cpuid = true ∧
        if hasX2apic m.cpuid then m.lapic.enabled = true
        else m.lapic.frame.toNat < 2 ^ 32 := by
  constructor
  · rintro ⟨base, m', done, -, lapic, reaches⟩
    have findable : m.Findable := by
      by_contra lost
      exact ApicMachine.init_lost sane lost done reaches
    refine ⟨?_, findable⟩
    rcases ApicMachine.init_cases sane findable with
      ⟨_, m'', done', -, -, kept, -⟩ | ⟨faults, -⟩
    · rw [done] at done'
      cases done'
      exact keptTimerEntry_eq_iff.mp (congrArg Lapic.lvtTimer (kept.symm.trans lapic))
    · rw [faults] at done
      cases done
  · rintro ⟨deadline, findable⟩
    rcases ApicMachine.init_cases sane findable with
      ⟨base, m', done, ram, -, lapic, ready⟩ | ⟨-, missing⟩
    · rw [keptTimerEntry_eq_iff.mpr deadline] at lapic
      refine ⟨base, m', done, ram, lapic, ?_⟩
      exact fun fuel events enough => ApicMachine.perform_all_ready events ready enough
    · rw [deadline] at missing
      cases missing

/-- A local APIC after reset, at its usual address. -/
def resetLapic : Lapic where
  apicBase := 0xfee00900
  id := 0
  svr := 0xff
  lvtTimer := 0x10000
  timerDiv := 0
  icrLow := 0
  icrHigh := 0
  irr := fun _ => false
  isr := fun _ => false
  sent := []
  latency := 3
  onItsWay := 0

/-- A processor with the TSC deadline mode and without x2APIC. -/
def oldProcessor : ApicMachine where
  cpuid := fun leaf =>
    { eax := 0, ebx := 0, ecx := if leaf = 1 then 0x01000000 else 0, edx := 0 }
  hhdm := 0xffff800000000000
  lapic := resetLapic
  ram := fun _ => 0
  mode := .none
  baseVirt := 0

theorem apicInit_reaches_oldProcessor :
    ∃ base m', oldProcessor.init oldProcessor.hhdm = some (true, m') ∧
      m'.ram = oldProcessor.ram ∧
      m'.lapic = (oldProcessor.lapic.withBase base).programmed timerEntry ∧ m'.Reaches :=
  (apicInit_reaches_iff oldProcessor (fun set => absurd set (by decide))).mpr (by decide)

end RincOs
