/-
Module: RincOs.Proofs.BootOutcome
Purpose: How booting ends for every hand-off: interrupts get enabled, or the kernel
  panics and says what is missing, or, in one case only, the processor faults before
  there is a handler.
Trusted boundary: none
Main exports:
  Control.initFeatures_spec, Control.enableNx_spec, vmInit_cases, runGatherBootinfo_eq,
  BootEnd, HandOff.verdict, KernelUp, kentry_verdict
-/
import RincOs.Kernel.Boot
import RincOs.Proofs.ConsoleWire
import RincOs.Proofs.InterruptRuns
import RincOs.Proofs.Operations
import RincOs.Proofs.SegmentLoads
import RincOs.Proofs.StringReads

namespace RincOs

/-! ### Features -/

theorem ControlRegs.nxe_eq (r : ControlRegs) : r.nxe = r.efer.getLsbD 11 := by
  have bit : eferNxe = BitVec.twoPow 64 11 := by decide
  rw [nxe, bit, BitVec.and_twoPow]
  cases r.efer.getLsbD 11 <;> decide

theorem ControlRegs.pge_eq (r : ControlRegs) : r.pge = r.cr4.getLsbD 7 := by
  have bit : cr4Pge = BitVec.twoPow 64 7 := by decide
  rw [pge, bit, BitVec.and_twoPow]
  cases r.cr4.getLsbD 7 <;> decide

theorem ControlRegs.lma_eq (r : ControlRegs) : r.lma = r.efer.getLsbD 10 := by
  have bit : eferLma = BitVec.twoPow 64 10 := by decide
  rw [lma, bit, BitVec.and_twoPow]
  cases r.efer.getLsbD 10 <;> decide

namespace Control

/-- What the features leave alone. -/
structure Keeps (c c' : Control) : Prop where
  cpuid : c'.cpuid = c.cpuid
  strictLma : c'.strictLma = c.strictLma
  cr3 : c'.regs.cr3 = c.regs.cr3

theorem Keeps.trans {c c' c'' : Control} (first : Keeps c c') (second : Keeps c' c'') :
    Keeps c c'' :=
  ⟨second.cpuid.trans first.cpuid, second.strictLma.trans first.strictLma,
    second.cr3.trans first.cr3⟩

theorem enableSse_spec (c : Control) :
    ∃ c', c.enableSse = some c' ∧ Keeps c c' ∧ c'.regs.efer = c.regs.efer :=
  ⟨_, rfl, ⟨rfl, rfl, rfl⟩, rfl⟩

/-- The registers after both features of `init_features` that every processor has. -/
def withPaging (c : Control) : Control where
  cpuid := c.cpuid
  strictLma := c.strictLma
  regs := { c.regs with cr0 := c.regs.cr0 ||| cr0Wp, cr4 := c.regs.cr4 ||| cr4Pge }
  log := c.log ++ [(c.regs, .cr0 (c.regs.cr0 ||| cr0Wp))] ++
    [({ c.regs with cr0 := c.regs.cr0 ||| cr0Wp }, .cr4 (c.regs.cr4 ||| cr4Pge))]

theorem keeps_withPaging (c : Control) : Keeps c c.withPaging := ⟨rfl, rfl, rfl⟩

theorem withPaging_pge (c : Control) : c.withPaging.regs.pge = true := by
  rw [ControlRegs.pge_eq]
  simp [withPaging, cr4Pge]

/-- NXE, with LMA cleared as the source does. -/
def eferWithNx (efer : Word) : Word := (efer ||| eferNxe) &&& ~~~eferLma

theorem eferWithNx_nxe (efer : Word) : (eferWithNx efer &&& eferNxe != 0) = true := by
  have bit := ControlRegs.nxe_eq { cr0 := 0, cr3 := 0, cr4 := 0, efer := eferWithNx efer }
  rw [ControlRegs.nxe] at bit
  rw [bit]
  simp [eferWithNx, eferNxe, eferLma]

/-- The write changes LMA if it is set, and it is set while the kernel runs. -/
theorem eferWithNx_lma (r : ControlRegs) :
    ((eferWithNx r.efer ^^^ r.efer) &&& eferLma != 0) = r.lma := by
  have bit := ControlRegs.lma_eq
    { cr0 := 0, cr3 := 0, cr4 := 0, efer := eferWithNx r.efer ^^^ r.efer }
  rw [ControlRegs.lma] at bit
  rw [bit, ControlRegs.lma_eq]
  simp [eferWithNx, eferNxe, eferLma]

theorem initFeatures_eq (c : Control) (enableNx : Bool) :
    c.initFeatures enableNx =
      if enableNx && hasNx c.cpuid then
        if c.regs.nxe then some (true, c.withPaging)
        else (c.withPaging.put (.efer (eferWithNx c.regs.efer))).map fun c => (true, c)
      else some (false, c.withPaging) := by
  have paged : c.initFeatures enableNx =
      if enableNx && hasNx c.cpuid then
        if c.regs.efer &&& eferNxe == 0 then
          (c.withPaging.put (.efer (eferWithNx c.regs.efer))).bind fun c' =>
            some (eferWithNx c.regs.efer &&& eferNxe != 0, c')
        else some (c.regs.efer &&& eferNxe != 0, c.withPaging)
      else some (false, c.withPaging) := rfl
  rw [paged, eferWithNx_nxe]
  cases set : c.regs.nxe with
  | true =>
      rw [ControlRegs.nxe] at set
      have clear : (c.regs.efer &&& eferNxe == 0) = false := by simpa using set
      rw [clear, set]
      rfl
  | false =>
      rw [ControlRegs.nxe] at set
      have clear : (c.regs.efer &&& eferNxe == 0) = true := by simpa using set
      rw [clear, Option.map_eq_bind]
      rfl

/-- The processor refuses to turn NX on in the way `init_features` does it. -/
def refusesNx (c : Control) : Bool :=
  hasNx c.cpuid && !c.regs.nxe && c.strictLma && c.regs.lma

/-- The processor after the write that turns NX on. -/
def withNx (c : Control) : Control :=
  { c with
    regs := { c.regs with
      efer := (eferWithNx c.regs.efer &&& ~~~eferLma) ||| (c.regs.efer &&& eferLma) }
    log := c.log ++ [(c.regs, .efer (eferWithNx c.regs.efer))] }

theorem withNx_nxe (c : Control) : c.withNx.regs.nxe = true := by
  rw [ControlRegs.nxe_eq]
  simp [withNx, eferWithNx, eferNxe, eferLma]

theorem put_eferWithNx {c : Control} (has : hasNx c.cpuid = true) :
    c.put (.efer (eferWithNx c.regs.efer)) =
      if c.strictLma && c.regs.lma then none else some c.withNx := by
  rw [put, ControlRegs.write, has, Bool.not_true, Bool.and_false, if_neg Bool.false_ne_true,
    eferWithNx_lma]
  split <;> rfl

/-- `init_features` succeeds on every processor that takes its write of `IA32_EFER`.  NXE is
set where it is wanted and there, and never cleared. -/
theorem initFeatures_spec (c : Control) (enableNx : Bool)
    (accepts : (enableNx && c.refusesNx) = false) :
    ∃ c', c.initFeatures enableNx = some (enableNx && hasNx c.cpuid, c') ∧ Keeps c c' ∧
      c'.regs.pge = true ∧ c'.regs.nxe = (c.regs.nxe || enableNx && hasNx c.cpuid) := by
  rw [initFeatures_eq]
  cases wanted : enableNx && hasNx c.cpuid with
  | false =>
      refine ⟨_, rfl, c.keeps_withPaging, c.withPaging_pge, ?_⟩
      simp [withPaging, ControlRegs.nxe]
  | true =>
      obtain ⟨asked, has⟩ := Bool.and_eq_true_iff.mp wanted
      cases set : c.regs.nxe with
      | true => exact ⟨_, rfl, c.keeps_withPaging, c.withPaging_pge, set⟩
      | false =>
          have loose : (c.strictLma && c.regs.lma) = false := by
            simpa [asked, refusesNx, has, set] using accepts
          have taken : (c.withPaging.strictLma && c.withPaging.regs.lma) = false := loose
          have put := @put_eferWithNx c.withPaging has
          rw [taken, if_neg Bool.false_ne_true] at put
          refine ⟨c.withPaging.withNx, ?_, ⟨rfl, rfl, rfl⟩, c.withPaging_pge, ?_⟩
          · exact congrArg (Option.map fun c => (true, c)) put
          · exact c.withPaging.withNx_nxe

theorem initFeatures_refused {c : Control} (refuses : c.refusesNx = true) :
    c.initFeatures true = none := by
  simp only [refusesNx, Bool.and_eq_true, Bool.not_eq_true'] at refuses
  obtain ⟨⟨⟨has, clear⟩, strict⟩, lma⟩ := refuses
  have put := @put_eferWithNx c.withPaging has
  have refused : (c.withPaging.strictLma && c.withPaging.regs.lma) = true :=
    Bool.and_eq_true_iff.mpr ⟨strict, lma⟩
  rw [refused, if_pos rfl] at put
  rw [initFeatures_eq, has, clear]
  exact congrArg (Option.map fun c => (true, c)) put

/-- No entry of the TLB survives `flush_tlb_all_global`, be it global or not. -/
theorem flushTlbAllGlobal_spec (c : Control) :
    ∃ c', c.flushTlbAllGlobal = some c' ∧ Keeps c c' ∧ c'.regs.nxe = c.regs.nxe ∧
      ∃ write ∈ c'.log, write.1 = c.regs ∧
        ∀ {α : Type} (entry : TlbEntry α), write.2.evicts write.1 entry = true := by
  cases pge : c.regs.pge with
  | true =>
      have cleared : c.regs.cr4 &&& ~~~cr4Pge &&& cr4Pge = 0 := by
        rw [BitVec.and_assoc, BitVec.not_and_self]
        exact BitVec.and_zero
      have flushed : c.flushTlbAllGlobal = some _ := if_pos pge
      refine ⟨_, flushed, ⟨rfl, rfl, rfl⟩, rfl, (c.regs, .cr4 (c.regs.cr4 &&& ~~~cr4Pge)), ?_, rfl,
        fun entry => ?_⟩
      · simp
      · rw [RegWrite.evicts, cleared, pge]
        rfl
  | false =>
      have flushed : c.flushTlbAllGlobal = some _ := if_neg (by rw [← ControlRegs.pge, pge]; decide)
      refine ⟨_, flushed, ⟨rfl, rfl, rfl⟩, rfl, (c.regs, .cr3 c.regs.cr3), ?_, rfl, fun entry => ?_⟩
      · simp
      · rw [RegWrite.evicts, pge]
        rfl

/-- With NX on, the TLB has been flushed as a whole. -/
def Flushed (c : Control) : Prop :=
  ∃ write ∈ c.log, write.1.nxe = true ∧
    ∀ {α : Type} (entry : TlbEntry α), write.2.evicts write.1 entry = true

/-- `enable_nx` succeeds on every processor that takes its write, and afterwards the flag of
the backend says whether there is NX. -/
theorem enableNx_spec (c : Control) (accepts : c.refusesNx = false) :
    ∃ c', c.enableNx false = some (hasNx c.cpuid, c') ∧ Keeps c c' ∧
      c'.regs.nxe = (c.regs.nxe || hasNx c.cpuid) ∧ (hasNx c.cpuid = true → c'.Flushed) := by
  rw [enableNx]
  cases has : hasNx c.cpuid with
  | false => exact ⟨c, rfl, ⟨rfl, rfl, rfl⟩, (Bool.or_false _).symm, fun set => by cases set⟩
  | true =>
      obtain ⟨c₁, done, keeps, -, nxe⟩ := c.initFeatures_spec true accepts
      obtain ⟨c₂, flushed, keeps', nxe', write, logged, before, evicts⟩ :=
        c₁.flushTlbAllGlobal_spec
      rw [has, Bool.true_and] at done nxe
      refine ⟨c₂, by simp [done, flushed], keeps.trans keeps', nxe'.trans nxe, fun _ => ?_⟩
      refine ⟨write, logged, ?_, evicts⟩
      rw [before, nxe, Bool.or_true]

theorem enableNx_refused {c : Control} (refuses : c.refusesNx = true) :
    c.enableNx false = none := by
  have has : hasNx c.cpuid = true := by
    simp only [refusesNx, Bool.and_eq_true] at refuses
    exact refuses.1.1.1
  simp [enableNx, has, initFeatures_refused refuses]

end Control

/-! ### The local APIC -/

/-- The device that `apic::init` cannot bring up: it faults on the write that would enable
x2APIC together with the device, or on the one that would set the TSC deadline mode. -/
def Lapic.refuses (cpuid : Cpuid) (l : Lapic) : Bool :=
  hasX2apic cpuid && !(l.enabled && hasTscDeadline cpuid)

theorem ApicMachine.init_refused {m : ApicMachine}
    (refuses : m.lapic.refuses m.cpuid = true) : m.init m.hhdm = none := by
  obtain ⟨has, missing⟩ := Bool.and_eq_true_iff.mp refuses
  rw [init_x2apic has]
  cases enabled : m.lapic.enabled with
  | false => rfl
  | true =>
      have deadline : hasTscDeadline m.cpuid = false := by simpa [enabled] using missing
      rw [if_pos rfl, program_faults adoptX2apic_ready rfl deadline]
      rfl

/-- Whether the registers are found or not, `program` writes them somewhere. -/
theorem ApicMachine.init_accepted {m : ApicMachine} (sane : m.Sane)
    (accepts : m.lapic.refuses m.cpuid = false) :
    ∃ m', m.init m.hhdm = some (true, m') ∧ m'.cpuid = m.cpuid := by
  cases has : hasX2apic m.cpuid with
  | true =>
      obtain ⟨enabled, deadline⟩ : m.lapic.enabled = true ∧ hasTscDeadline m.cpuid = true := by
        simpa [Lapic.refuses, has] using accepts
      rw [init_x2apic has, if_pos enabled, program_ready adoptX2apic_ready deadline]
      exact ⟨_, rfl, rfl⟩
  | false =>
      rw [init_xapic has (sane.extended has)]
      by_cases low : m.lapic.frame.toNat < 2 ^ 32
      · rw [program_xapic (adoptXapic_ready (sane.extended has) low) rfl]
        exact ⟨_, rfl, rfl⟩
      · obtain ⟨ram, done⟩ := (adoptXapic_astray low).program
        rw [done]
        exact ⟨_, rfl, rfl⟩

/-! ### The boot information -/

/-- The bootloader has answered what the VM service needs. -/
def LimineResponses.described (responses : LimineResponses) : Bool :=
  responses.revisionValid && responses.revisionSupported && responses.hhdm.getD 0 != 0 &&
    !(responses.memmap.getD []).isEmpty

theorem isSome_new (boot : BootInfo) :
    (BootPtAlloc.new boot).isSome =
      (boot.hhdmOffset != 0 && boot.mem.entriesPtr != 0 && boot.mem.entryCount != 0 &&
        boot.mem.entrySize.toNat == memMapEntrySize) := by
  rw [BootPtAlloc.new]
  split_ifs with hhdm entries size <;> simp_all [or_iff_not_imp_left]

theorem entryCount_pos (entry : LimineEntry) (entries : List LimineEntry) :
    BitVec.ofNat 32 (min (entry :: entries).length maxMemmap) ≠ 0 := by
  intro zero
  have value := congrArg BitVec.toNat zero
  rw [BitVec.toNat_ofNat, maxMemmap, List.length_cons] at value
  change _ = 0 at value
  omega

theorem new_gatherMemmap (statics : ImportStatics) (responses : LimineResponses) (m : Mem)
    (hhdmOffset : Word) :
    (BootPtAlloc.new
        { hhdmOffset := hhdmOffset, mem := (gatherMemmap statics responses m).1.1 }).isSome =
      (hhdmOffset != 0 && !(responses.memmap.getD []).isEmpty) := by
  rw [isSome_new, gatherMemmap]
  cases responses.memmap with
  | none => simp [emptyMemmapView]
  | some entries =>
      cases entries with
      | nil => simp [convertMemmapEntries, emptyMemmapView]
      | cons entry entries =>
          have mapped : (statics.membuf.ptr != 0) = true := bne_iff_ne.mpr statics.membuf_mapped
          have count : (BitVec.ofNat 32 (min (entry :: entries).length maxMemmap) != 0) = true :=
            bne_iff_ne.mpr (entryCount_pos entry entries)
          have size : ((BitVec.ofNat 16 memMapEntrySize).toNat == memMapEntrySize) = true := by
            decide
          simp only [convertMemmapEntries, List.isEmpty_cons, Bool.false_eq_true, if_false, mapped,
            count, size, Bool.and_true, Option.getD_some, Bool.not_false]

theorem new_gatherBootinfo (statics : ImportStatics) (arch : BootArch)
    (responses : LimineResponses) (cpuCount : BitVec 32) (m : Mem) :
    (BootPtAlloc.new (gatherBootinfo statics arch responses cpuCount m).1.toBootInfo).isSome =
      responses.described := by
  rw [gatherBootinfo, LimineResponses.described]
  cases responses.revisionValid with
  | false => rfl
  | true =>
      cases responses.revisionSupported with
      | false => rfl
      | true => exact new_gatherMemmap statics responses m _

/-- The hand-off makes `gather_bootinfo` read where nothing is mapped: the offset of the direct
map is missing, and a string is given by an address in an entry of the map. -/
def LimineResponses.strays (responses : LimineResponses) : Bool :=
  responses.revisionValid && responses.revisionSupported && responses.hhdm.getD 0 == 0 &&
    responses.strings.any fun ptr =>
      ptr != 0 && (physAvailable ptr responses.converted).isSome

theorem isSome_cstrSlice {statics : ImportStatics} {responses : LimineResponses} {m : Mem}
    (ptr : Word) :
    (cstrSlice statics ptr 0 (gatherMemmap statics responses m).1.1
        (gatherMemmap statics responses m).2).isSome =
      (ptr != 0 && (physAvailable ptr responses.converted).isSome) := by
  obtain ⟨describes, imported⟩ := imported_start responses statics m
  have entries := imported.read describes
  cases available : physAvailable ptr responses.converted with
  | none =>
      rw [Option.isSome_none, Bool.and_false, Option.isSome_eq_false_iff,
        Option.isNone_iff_eq_none, cstrSlice, mapEntries, entries]
      split
      · rfl
      · simp [resolveLiminePtr, available]
  | some max =>
      obtain ⟨entry, among, -, covers, room⟩ := physAvailable_some available
      have nonempty := List.ne_nil_of_mem among
      have counted : (gatherMemmap statics responses m).1.1.entryCount ≠ 0 := by
        intro none
        have count := describes.count
        rw [none] at count
        exact nonempty (List.length_eq_zero_iff.mp count.symm)
      have positive : ¬ min max.toNat maxStrBytes = 0 := by
        have above := covers.2
        rw [maxStrBytes]
        omega
      rw [cstrSlice, mapEntries, entries]
      by_cases null : ptr = 0
      · simp [null]
      · have usable : ¬ (ptr = 0 ∨ (gatherMemmap statics responses m).1.1.entriesPtr = 0 ∨
            (gatherMemmap statics responses m).1.1.entryCount = 0 ∨
            (gatherMemmap statics responses m).1.1.entrySize.toNat ≠ memMapEntrySize) := by
          rintro (isNull | unmapped | none | other)
          · exact null isNull
          · exact describes.mapped nonempty unmapped
          · exact counted none
          · exact other describes.size
        have resolved : resolveLiminePtr ptr 0 responses.converted = some (ptr, max) := by
          simp [resolveLiminePtr, available]
        have given : (ptr != 0) = true := bne_iff_ne.mpr null
        simp only [if_neg usable, resolved, Option.bind_eq_bind, Option.bind_some,
          if_neg positive, given]
        rfl

/-- The import faults exactly if the hand-off makes it. -/
theorem runGatherBootinfo_eq (statics : ImportStatics) (arch : BootArch)
    (responses : LimineResponses) (cpuCount : BitVec 32) (m : Mem) :
    runGatherBootinfo statics arch responses cpuCount m =
      if responses.strays then none
      else some (gatherBootinfo statics arch responses cpuCount m) := by
  simp only [runGatherBootinfo, isSome_cstrSlice, LimineResponses.strays]
  rfl

/-! ### The virtual memory service -/

/-- The machine after `vm::init`. -/
def Machine.up (m : Mem) (cr3 : Word) (nx : Bool) : Machine :=
  { Machine.boot m with
    nxeEnabled := nx
    kas := some ⟨cr3 &&& addrMask⟩
    kasHandle := some .kas
    currentPerCpu := Function.update (fun _ => none) bootIndex (some .kas) }

theorem vmInit_cases {membuf : Membuf} (info : BootInfo) (m : Mem) (control : Control) :
    let outcome := @vmInit membuf info { cr3 := control.regs.cr3, index := bootIndex }
      (Machine.boot m) control
    (BootPtAlloc.new info = none ∧ outcome = .error "vm: missing HHDM or memmap".toList) ∨
      ((BootPtAlloc.new info).isSome ∧ control.regs.cr3 &&& addrMask = 0 ∧
        outcome = .error "vm: mmu kernel init failed: InvalidArgs".toList) ∨
      ((BootPtAlloc.new info).isSome ∧ control.regs.cr3 &&& addrMask ≠ 0 ∧
        control.refusesNx = true ∧ outcome = .error (trapMessage .generalProtection)) ∨
      (control.regs.cr3 &&& addrMask ≠ 0 ∧ control.refusesNx = false ∧ ∃ alloc control',
        BootPtAlloc.new info = some alloc ∧ Control.Keeps control control' ∧
          control'.regs.nxe = (control.regs.nxe || hasNx control.cpuid) ∧
          (hasNx control.cpuid = true → control'.Flushed) ∧
          outcome =
            .ok (⟨.up m control.regs.cr3 (hasNx control.cpuid), ⟨alloc⟩⟩, control')) := by
  intro outcome
  cases created : BootPtAlloc.new info with
  | none =>
      refine .inl ⟨rfl, ?_⟩
      simp only [outcome, vmInit, created]
  | some alloc =>
      refine .inr ?_
      rcases initKernel_cases { cr3 := control.regs.cr3, index := bootIndex }
        (⟨Machine.boot m, ⟨alloc⟩⟩ : Sys (BufferedAlloc membuf)) with
        ⟨_, already, -⟩ | ⟨-, zero, failed⟩ | ⟨-, nonzero, done⟩
      · cases already
      · refine .inl ⟨rfl, zero, ?_⟩
        simp only [outcome, vmInit, created]
        rw [failed]
        rfl
      · refine .inr ?_
        cases refuses : control.refusesNx with
        | true =>
            refine .inl ⟨rfl, nonzero, rfl, ?_⟩
            simp only [outcome, vmInit, created]
            rw [done]
            simp only [Machine.boot, Control.enableNx_refused refuses]
        | false =>
            obtain ⟨control', enabled, keeps, nxe, flushed⟩ := control.enableNx_spec refuses
            refine .inr ⟨nonzero, rfl, alloc, control', rfl, keeps, nxe, flushed, ?_⟩
            simp only [outcome, vmInit, created]
            rw [done]
            simp only [Machine.boot, enabled]
            rfl

/-! ### The verdict

`HandOff.verdict` says of a hand-off how booting ends, without running the kernel: the conditions
are tested in the order in which `kentry` and `kmain` run into them. -/

/-- What `gather_bootinfo` makes of a hand-off. -/
def HandOff.imported (image : KernelImage) (h : HandOff) : ImportedBootInfo × ImportState :=
  gatherBootinfo image.statics .x86_64 h.responses 1 h.mem

/-- The control registers of a hand-off. -/
def HandOff.control (h : HandOff) : Control :=
  { cpuid := h.cpuid, strictLma := h.strictLma, regs := h.regs, log := [] }

/-- `time::init` arms the timer. -/
def HandOff.ticks (h : HandOff) : Bool :=
  TimeState.arms (TimeState.beforeTick h.cpuid
    { tscHz := 0, registered := false, tsc := h.tsc, deadline := h.deadline })

/-- How booting ends. -/
inductive BootEnd where
  | running
  | panicked (message : List Char)
  /-- An exception while there is no handler. -/
  | faulted
deriving DecidableEq

def HandOff.verdict (h : HandOff) : BootEnd :=
  if h.responses.strays then .faulted
  else if !h.responses.described then .panicked "vm: missing HHDM or memmap".toList
  else if h.regs.cr3 &&& addrMask = 0 then
    .panicked "vm: mmu kernel init failed: InvalidArgs".toList
  else if h.control.refusesNx then .panicked (trapMessage .generalProtection)
  else if h.lapic.refuses h.cpuid then .panicked (trapMessage .generalProtection)
  else if h.ticks && !hasRdtscp h.cpuid then .panicked (trapMessage .invalidOpcode)
  else if h.ticks && !hasTscDeadline h.cpuid then .panicked (trapMessage .generalProtection)
  else .running

/-- The conditions of the verdict from `init_irqs` on. -/
def HandOff.irqVerdict (h : HandOff) : BootEnd :=
  if h.lapic.refuses h.cpuid then .panicked (trapMessage .generalProtection)
  else if h.ticks && !hasRdtscp h.cpuid then .panicked (trapMessage .invalidOpcode)
  else if h.ticks && !hasTscDeadline h.cpuid then .panicked (trapMessage .generalProtection)
  else .running

theorem HandOff.verdict_eq_irqVerdict {h : HandOff} (reads : ¬ h.responses.strays = true)
    (responded : h.responses.described = true) (root : ¬ h.regs.cr3 &&& addrMask = 0)
    (taken : ¬ h.control.refusesNx = true) : h.verdict = h.irqVerdict := by
  rw [HandOff.verdict, if_neg reads, responded, if_neg (by decide), if_neg root, if_neg taken,
    HandOff.irqVerdict]

/-- The kernel with interrupts enabled, as far as the hand-off decides it. -/
structure KernelUp (image : KernelImage) (h : HandOff) (k : Kernel image.statics.membuf) :
    Prop where
  info : k.info = (h.imported image).1
  segments : SegmentsReady image.tssAddr k.segments.regs
  idt : k.idt = image.text.idt
  sys : ∃ alloc, BootPtAlloc.new k.info.toBootInfo = some alloc ∧
    k.sys = ⟨.up (h.imported image).2.mem h.regs.cr3 (hasNx h.cpuid), ⟨alloc⟩⟩
  /-- The backend sets bit 63 of entries only where the processor takes it. -/
  nxe : k.control.regs.nxe = (h.regs.nxe || hasNx h.cpuid)
  flushed : hasNx h.cpuid = true → k.control.Flushed
  cr3 : k.control.regs.cr3 = h.regs.cr3
  node : (h.node k.info.toBootInfo).kmain = .ok k.node
  idle : k.node.activity = .idle

/-! ### Up to the VM service -/

/-- The console when `kmain` starts. -/
def entryConsole : Console := initConsole.log (ascii "logger up".toList)

/-- The console when `print_boot_info` starts. -/
def reportConsole : Console :=
  (((entryConsole.writeStr (ascii "ENTER kmain\n".toList)).log
    (ascii "[init] arch core".toList)).log (ascii "[init] arch mmu".toList)).log
    (ascii "[init] interrupts".toList)

/-- The console when `vm::init` starts. -/
def vmConsole (image : KernelImage) (info : ImportedBootInfo) (m : Mem) : Console :=
  (reportConsole.printBootInfo image.statics info m).log (ascii "[init] vm".toList)

/-- `kmain` from `init_time_source` on. -/
def kmainFromIrqs (image : KernelImage) (h : HandOff) (info : ImportedBootInfo)
    (sys : Sys (BufferedAlloc image.statics.membuf)) (control : Control) (segments : Segments)
    (idt : Idt) (console : Console) : Except BootStop (Kernel image.statics.membuf) := do
  let console := (console.log (ascii "[init] arch time".toList)).log
    (ascii "[init] arch irqs".toList)
  let (apicOk, node) ← orPanic console (h.node info.toBootInfo).startIrqs
  if !apicOk then throw (.panicked "arch irqs apic unavailable".toList console)
  let console := console.log (ascii "[init] time".toList)
  let node ← orPanic console node.initTime
  return { info, sys, control, segments, idt, console, node := node.enableInterrupts }

/-- `kmain` from `vm::init` on. -/
def kmainFromVm (image : KernelImage) (h : HandOff) (info : ImportedBootInfo) (m : Mem)
    (segments : Segments) (idt : Idt) (control : Control) (console : Console) :
    Except BootStop (Kernel image.statics.membuf) :=
  match vmInit info.toBootInfo { cr3 := control.regs.cr3, index := bootIndex } (Machine.boot m)
      control with
  | .error message => .error (.panicked message console)
  | .ok (sys, control) => kmainFromIrqs image h info sys control segments idt console

theorem orFault_bind {α β : Type} (console : Console) (a : α) (f : α → Except BootStop β) :
    (orFault console (some a) >>= f) = f a := rfl

theorem orPanic_bind {α β : Type} (console : Console) (a : α) (f : α → Except BootStop β) :
    (orPanic console (.ok a) >>= f) = f a := rfl

/-- Nothing but the import of strings faults before `vm::init`. -/
theorem kentry_eq {image : KernelImage} (h : HandOff)
    (canonical : isCanonical image.tssAddr = true) :
    ∃ segments control, SegmentsReady image.tssAddr segments.regs ∧
      Control.Keeps h.control control ∧ control.regs.efer = h.regs.efer ∧
      if h.responses.strays then ∃ console, kentry image h = .error (.faulted console)
      else
        kentry image h =
          kmainFromVm image h (h.imported image).1 (h.imported image).2.mem segments
            image.text.idt control
            (vmConsole image (h.imported image).1 (h.imported image).2.mem) := by
  obtain ⟨control, sse, keeps, efer⟩ := h.control.enableSse_spec
  obtain ⟨segments, core, ready⟩ := initCore_spec canonical h.rsp h.segments
  have features : control.initFeatures false = some (false, control.withPaging) := rfl
  refine ⟨segments, control.withPaging, ready, keeps.trans control.keeps_withPaging, efer, ?_⟩
  have gather := runGatherBootinfo_eq image.statics .x86_64 h.responses 1 h.mem
  rw [HandOff.control] at sse
  split
  · rename_i strays
    rw [if_pos strays] at gather
    rw [kentry, sse, orFault_bind, gather]
    exact ⟨_, rfl⟩
  · rename_i strays
    rw [if_neg strays] at gather
    have entered : kentry image h =
        kmain image h (h.imported image).1 (h.imported image).2.mem control entryConsole := by
      rw [kentry, sse, orFault_bind, gather, orFault_bind]
      rfl
    simp only [entered, kmain, core, features, orFault_bind]
    rfl

/-! ### From the VM service on

`kmainFromVm` is `kmain` from `vm::init` on, and `kmainFromIrqs` what comes behind
`vm::init`.  Both are stated for any console and any machine that they can start with. -/

section

variable {image : KernelImage} {h : HandOff} {info : ImportedBootInfo} {m : Mem}
  {segments : Segments} {idt : Idt} {control control' : Control} {console : Console}
  {sys : Sys (BufferedAlloc image.statics.membuf)}

theorem kmainFromVm_error {message : List Char}
    (vm : @vmInit image.statics.membuf info.toBootInfo
      { cr3 := control.regs.cr3, index := bootIndex } (Machine.boot m) control =
        .error message) :
    kmainFromVm image h info m segments idt control console =
      .error (.panicked message console) := by
  simp only [kmainFromVm, vm]

theorem kmainFromVm_ok
    (vm : vmInit info.toBootInfo { cr3 := control.regs.cr3, index := bootIndex }
      (Machine.boot m) control = .ok (sys, control')) :
    kmainFromVm image h info m segments idt control console =
      kmainFromIrqs image h info sys control' segments idt console := by
  simp only [kmainFromVm, vm]

theorem kmainFromIrqs_refused {kind : FaultKind}
    (refused : (h.node info.toBootInfo).startIrqs = .error kind) :
    ∃ console', kmainFromIrqs image h info sys control segments idt console =
      .error (.panicked (trapMessage kind) console') := by
  rw [kmainFromIrqs, refused]
  exact ⟨_, rfl⟩

/-- The console when `time::init` starts. -/
def timeConsole (console : Console) : Console :=
  ((console.log (ascii "[init] arch time".toList)).log (ascii "[init] arch irqs".toList)).log
    (ascii "[init] time".toList)

theorem kmainFromIrqs_started {node : Node}
    (started : (h.node info.toBootInfo).startIrqs = .ok (true, node)) :
    kmainFromIrqs image h info sys control segments idt console =
      orPanic (timeConsole console) node.initTime >>= fun timed =>
        pure { info, sys, control, segments, idt, console := timeConsole console,
               node := timed.enableInterrupts } := by
  simp only [kmainFromIrqs, started, orPanic_bind, Bool.not_true, Bool.false_eq_true, if_false,
    timeConsole]

theorem kmainFromIrqs_untimed {kind : FaultKind} {node : Node}
    (started : (h.node info.toBootInfo).startIrqs = .ok (true, node))
    (untimed : node.initTime = .error kind) :
    ∃ console', kmainFromIrqs image h info sys control segments idt console =
      .error (.panicked (trapMessage kind) console') := by
  rw [kmainFromIrqs_started started, untimed]
  exact ⟨_, rfl⟩

theorem kmainFromIrqs_ok {node timed : Node}
    (started : (h.node info.toBootInfo).startIrqs = .ok (true, node))
    (done : node.initTime = .ok timed) :
    kmainFromIrqs image h info sys control segments idt console =
      .ok { info, sys, control, segments, idt, console := timeConsole console,
            node := timed.enableInterrupts } := by
  rw [kmainFromIrqs_started started, done]
  rfl

theorem kmainFromIrqs_outcome
    (sane : h.lapic.extended = true → h.lapic.enabled = true ∧ hasX2apic h.cpuid = true) :
    (h.irqVerdict = .running ∧ ∃ node,
        (h.node info.toBootInfo).kmain = .ok node ∧ node.activity = .idle ∧
          kmainFromIrqs image h info sys control segments idt console =
            .ok { info, sys, control, segments, idt, console := timeConsole console, node }) ∨
      ∃ message console', h.irqVerdict = .panicked message ∧
        kmainFromIrqs image h info sys control segments idt console =
          .error (.panicked message console') := by
  rw [HandOff.irqVerdict]
  cases refuses : h.lapic.refuses h.cpuid with
  | true =>
      have faults := @ApicMachine.init_refused (h.node info.toBootInfo).apic refuses
      obtain ⟨console', stopped⟩ := kmainFromIrqs_refused (Node.startIrqs_fault faults)
      exact .inr ⟨_, console', if_pos rfl, stopped⟩
  | false =>
      obtain ⟨apic, done, cpuid⟩ :=
        @ApicMachine.init_accepted (h.node info.toBootInfo).apic sane refuses
      have started := Node.startIrqs_eq done
      have time := Node.initTime_eq ((h.node info.toBootInfo).beforeTick apic)
      have features : ((h.node info.toBootInfo).beforeTick apic).apic.cpuid = h.cpuid := cpuid
      have ticks : ((h.node info.toBootInfo).beforeTick apic).time.arms = h.ticks := rfl
      rw [features, ticks] at time
      rw [if_neg Bool.false_ne_true]
      split at time
      · rename_i noRdtscp
        obtain ⟨console', stopped⟩ := kmainFromIrqs_untimed started time
        exact .inr ⟨_, console', if_pos noRdtscp, stopped⟩
      rename_i rdtscp
      rw [if_neg rdtscp]
      split at time
      · rename_i noDeadline
        obtain ⟨console', stopped⟩ := kmainFromIrqs_untimed started time
        exact .inr ⟨_, console', if_pos noDeadline, stopped⟩
      · rename_i deadline
        refine .inl ⟨if_neg deadline, _, ?_, rfl, kmainFromIrqs_ok started time⟩
        rw [Node.kmain_eq done, time]
        rfl

end

theorem kentry_outcome {image : KernelImage} {h : HandOff}
    (canonical : isCanonical image.tssAddr = true)
    (sane : h.lapic.extended = true → h.lapic.enabled = true ∧ hasX2apic h.cpuid = true) :
    (h.verdict = .running ∧ ∃ k, kentry image h = .ok k ∧ KernelUp image h k) ∨
      (∃ message console, h.verdict = .panicked message ∧
        kentry image h = .error (.panicked message console)) ∨
      h.verdict = .faulted ∧ ∃ console, kentry image h = .error (.faulted console) := by
  obtain ⟨segments, control, ready, keeps, efer, started⟩ := kentry_eq h canonical
  split at started
  · rename_i strays
    exact .inr (.inr ⟨if_pos strays, started⟩)
  rename_i reads
  have described := new_gatherBootinfo image.statics .x86_64 h.responses 1 h.mem
  have cr3 : control.regs.cr3 = h.regs.cr3 := keeps.cr3
  have cpuid : control.cpuid = h.cpuid := keeps.cpuid
  have nx : control.refusesNx = h.control.refusesNx := by
    simp only [Control.refusesNx, ControlRegs.nxe, ControlRegs.lma, keeps.cpuid, keeps.strictLma,
      efer]
    rfl
  rcases @vmInit_cases image.statics.membuf (h.imported image).1.toBootInfo
    (h.imported image).2.mem control with
    ⟨missing, failed⟩ | ⟨given, zero, failed⟩ | ⟨given, nonzero, refuses, failed⟩ |
    ⟨nonzero, accepts, alloc, control', created, keeps', nxe, flushed, up⟩
  · have undescribed : h.responses.described = false := by
      rw [← described]
      exact congrArg Option.isSome missing
    refine .inr (.inl ⟨_, _, ?_, started.trans (kmainFromVm_error failed)⟩)
    rw [HandOff.verdict, if_neg reads, undescribed, if_pos (by decide)]
  · have responded : h.responses.described = true := described.symm.trans given
    refine .inr (.inl ⟨_, _, ?_, started.trans (kmainFromVm_error failed)⟩)
    rw [HandOff.verdict, if_neg reads, responded, if_neg (by decide), if_pos (cr3 ▸ zero)]
  · have responded : h.responses.described = true := described.symm.trans given
    refine .inr (.inl ⟨_, _, ?_, started.trans (kmainFromVm_error failed)⟩)
    rw [HandOff.verdict, if_neg reads, responded, if_neg (by decide), if_neg (cr3 ▸ nonzero),
      if_pos (nx.symm.trans refuses)]
  · have responded : h.responses.described = true :=
      described.symm.trans (congrArg Option.isSome created)
    have taken : ¬ h.control.refusesNx = true := by
      rw [← nx, accepts]
      exact Bool.false_ne_true
    have verdict := HandOff.verdict_eq_irqVerdict reads responded (cr3 ▸ nonzero) taken
    rw [kmainFromVm_ok up] at started
    rcases kmainFromIrqs_outcome sane with
      ⟨runs, node, booted, idle, done⟩ | ⟨message, console, panics, stopped⟩
    · refine .inl ⟨verdict.trans runs, _, started.trans done, ?_⟩
      exact
        { info := rfl
          segments := ready
          idt := rfl
          sys := ⟨alloc, created, by rw [cr3, cpuid]⟩
          nxe := by rw [nxe, cpuid, ControlRegs.nxe, efer]; rfl
          flushed := by rwa [cpuid] at flushed
          cr3 := keeps'.cr3.trans cr3
          node := booted
          idle := idle }
    · exact .inr (.inl ⟨message, console, verdict.trans panics, started.trans stopped⟩)

/-- How booting ends is what the verdict says: interrupts are enabled, or the kernel panics with
the message the verdict names, or the processor faults while there is no handler. -/
theorem kentry_verdict {image : KernelImage} {h : HandOff}
    (canonical : isCanonical image.tssAddr = true)
    (sane : h.lapic.extended = true → h.lapic.enabled = true ∧ hasX2apic h.cpuid = true) :
    ((∃ k, kentry image h = .ok k ∧ KernelUp image h k) ↔ h.verdict = .running) ∧
      (∀ message, (∃ console, kentry image h = .error (.panicked message console)) ↔
        h.verdict = .panicked message) ∧
      ((∃ console, kentry image h = .error (.faulted console)) ↔ h.verdict = .faulted) := by
  rcases kentry_outcome canonical sane with
    ⟨verdict, k, done, up⟩ | ⟨message, console, verdict, stopped⟩ | ⟨verdict, console, stopped⟩
  · simp [done, verdict, up]
  · simp [stopped, verdict]
  · simp [stopped, verdict]

/-! ### A hand-off with one entry of memory -/

def oneEntryImage : KernelImage where
  statics := oneEntryStatics
  text := lowText
  tssAddr := 0xffffffff80230000
  dfIstStack := 0xffffffff80240000

/-- A PML4 at 3 MiB and a PDPT behind it, which maps the direct map by a 1 GiB page. -/
def directMapMem : Mem := fun x =>
  if x = 0x300800 then 0x301003 else if x = 0x301000 then 0x83 else oneEntryMem x

def oneEntryHandOff : HandOff where
  responses := oneEntryResponses
  mem := directMapMem
  cpuid := crystalCpuid
  strictLma := true
  regs := { cr0 := 0x80010011, cr3 := 0x300000, cr4 := 0x20, efer := 0xd00 }
  segments := blankSegments
  rsp := 0xffff800000100000
  lapic := resetLapic
  ram := fun _ => 0
  tsc := 5000
  deadline := 0

theorem oneEntryHandOff_verdict : oneEntryHandOff.verdict = .running := by decide

theorem kentry_verdict_oneEntry :
    ∃ k, kentry oneEntryImage oneEntryHandOff = .ok k ∧
      KernelUp oneEntryImage oneEntryHandOff k :=
  (@kentry_verdict oneEntryImage oneEntryHandOff (by decide)
    (fun set => absurd set (by decide))).1.mpr oneEntryHandOff_verdict

end RincOs
