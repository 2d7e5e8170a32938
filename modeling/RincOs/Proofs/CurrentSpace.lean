/-
Module: RincOs.Proofs.CurrentSpace
Purpose: When `current()` is the address space last activated on the same CPU.
  The per-CPU table is indexed by the local APIC id once the APIC is set up, by 0
  before, and by 0 for large ids, so this needs the boot CPU to be the one CPU
  with index 0.
Trusted boundary: none
Main exports:
  BootRun, TracksCurrent, tracksCurrent_iff, current_panics
-/
import RincOs.Arch.Smp
import RincOs.Proofs.Operations

namespace RincOs

section

variable {C A : Type} [DecidableEq C]

/-- The boot order and what follows it: `init_kernel` on the boot CPU, then
`apic::init`, then calls of `activate` on any CPUs.  `latest` holds for each CPU
the address space it runs on because of the calls so far. -/
inductive BootRun (lapicId : C → BitVec 32) (hasX2apic : Bool) (boot : C) (start : Smp C A) :
    (C → Option AddressSpace) → Smp C A → Prop where
  | initKernel {s : Sys A} {h : AddressSpace}
      (adopted : (initKernel (start.cpu lapicId boot)).exec start.toSys = (.ok h, s)) :
      BootRun lapicId hasX2apic boot start (Function.update (fun _ => none) boot (some h))
        { start with toSys := s }
  | apicInit {latest : C → Option AddressSpace} {s : Smp C A}
      (before : BootRun lapicId hasX2apic boot start latest s) (early : s.apicMode = .none) :
      BootRun lapicId hasX2apic boot start latest { s with apicMode := apicInit hasX2apic }
  | activate {latest : C → Option AddressSpace} {s : Smp C A}
      (before : BootRun lapicId hasX2apic boot start latest s) (ready : s.apicMode ≠ .none)
      (c : C) (aspace : AddressSpace) :
      BootRun lapicId hasX2apic boot start (Function.update latest c (some aspace))
        (s.activate lapicId c aspace)

/-- The statics as linked, but with any address spaces in the slots. -/
def Smp.linked (mem : Mem) (slots : Fin maxAddressSpaces → AddressSpaceSlot) (alloc : A)
    (cr3 : C → Word) : Smp C A :=
  { Machine.boot mem with
    asSlots := slots
    ptAlloc := alloc
    apicMode := .none
    cr3 := cr3 }

/-- At every point `current()` does not panic and returns the address space the
CPU runs on, with the root that is in its CR3. -/
def TracksCurrent (lapicId : C → BitVec 32) (hasX2apic : Bool) (boot : C) (start : Smp C A) :
    Prop :=
  ∀ latest s, BootRun lapicId hasX2apic boot start latest s →
    ∀ c aspace, latest c = some aspace →
      s.current lapicId c = some aspace ∧
        (s.asX86 aspace).pml4Phys &&& addrMask = s.cr3 c &&& addrMask

omit [DecidableEq C] in
theorem initKernel_linked {mem : Mem} {slots : Fin maxAddressSpaces → AddressSpaceSlot}
    {alloc : A} {cr3 : C → Word} {lapicId : C → BitVec 32} {boot : C}
    (nonzero : cr3 boot &&& addrMask ≠ 0) :
    (initKernel ((Smp.linked mem slots alloc cr3).cpu lapicId boot)).exec
        (Smp.linked mem slots alloc cr3).toSys =
      (.ok .kas,
        { (Smp.linked mem slots alloc cr3).toSys with
          kas := some ⟨cr3 boot &&& addrMask⟩
          kasHandle := some .kas
          currentPerCpu := Function.update (fun _ => none) 0 (some .kas) }) := by
  rcases initKernel_cases ((Smp.linked mem slots alloc cr3).cpu lapicId boot)
    (Smp.linked mem slots alloc cr3).toSys with ⟨_, already, -⟩ | ⟨-, zero, -⟩ | ⟨-, -, done⟩
  · cases already
  · exact absurd zero nonzero
  · exact done

omit [DecidableEq C] in
/-- CPUs with distinct ids have distinct indices if only the boot CPU has 0. -/
theorem cpuIndex_injective {lapicId : C → BitVec 32} {mode : ApicMode} {boot : C}
    (distinct : Function.Injective fun c => cpuId mode (lapicId c))
    (onlyBoot : ∀ c, cpuIndex mode (lapicId c) = 0 ↔ c = boot) :
    Function.Injective fun c => cpuIndex mode (lapicId c) := by
  intro c d same
  dsimp only at same
  by_cases zero : cpuIndex mode (lapicId c) = 0
  · have other : cpuIndex mode (lapicId d) = 0 := same ▸ zero
    exact ((onlyBoot c).mp zero).trans ((onlyBoot d).mp other).symm
  · have value : ∀ e, cpuIndex mode (lapicId e) ≠ 0 →
        (cpuIndex mode (lapicId e)).val = (cpuId mode (lapicId e)).toNat := by
      intro e nonzero
      rw [cpuIndex] at nonzero ⊢
      split at nonzero
      · rename_i inRange
        rw [dif_pos inRange]
      · exact absurd rfl nonzero
    apply distinct
    apply BitVec.eq_of_toNat_eq
    dsimp only
    rw [← value c zero, same, value d (same ▸ zero)]

/-- What holds along the boot order and after it. -/
structure CurrentInv (lapicId : C → BitVec 32) (hasX2apic : Bool) (boot : C)
    (latest : C → Option AddressSpace) (s : Smp C A) : Prop where
  mode : s.apicMode = .none ∨ s.apicMode = apicInit hasX2apic
  early : s.apicMode = .none → ∀ c aspace, latest c = some aspace → c = boot
  tracked : ∀ c aspace, latest c = some aspace →
    s.current lapicId c = some aspace ∧
      (s.asX86 aspace).pml4Phys &&& addrMask = s.cr3 c &&& addrMask

section

variable {lapicId : C → BitVec 32} {hasX2apic : Bool} {boot : C}
  {latest : C → Option AddressSpace} {s : Smp C A}

omit [DecidableEq C] in
/-- Setting up the APIC leaves the boot CPU at index 0. -/
theorem CurrentInv.apicInit (inv : CurrentInv lapicId hasX2apic boot latest s)
    (early : s.apicMode = .none)
    (atZero : cpuIndex (apicInit hasX2apic) (lapicId boot) = 0) :
    CurrentInv lapicId hasX2apic boot latest { s with apicMode := apicInit hasX2apic } where
  mode := Or.inr rfl
  early unset c aspace known := inv.early early c aspace known
  tracked c aspace known := by
    obtain ⟨current, root⟩ := inv.tracked c aspace known
    refine ⟨?_, root⟩
    obtain rfl := inv.early early c aspace known
    rw [Smp.current, Smp.index, early] at current
    rw [Smp.current, Smp.index, atZero]
    exact current

/-- An activation is seen on its CPU and on no other. -/
theorem CurrentInv.activate (inv : CurrentInv lapicId hasX2apic boot latest s)
    (ready : s.apicMode ≠ .none)
    (injective : Function.Injective fun c => cpuIndex (RincOs.apicInit hasX2apic) (lapicId c))
    (c : C) (aspace : AddressSpace) :
    CurrentInv lapicId hasX2apic boot (Function.update latest c (some aspace))
      (s.activate lapicId c aspace) where
  mode := inv.mode
  early unset := absurd unset ready
  tracked d other known := by
    have mode := inv.mode.resolve_left ready
    by_cases same : d = c
    · subst same
      rw [Function.update_self] at known
      obtain rfl := Option.some.inj known
      rw [Smp.current_activate, if_pos rfl, Smp.asX86_activate, Smp.cr3_activate,
        Function.update_self]
      exact ⟨rfl, (isFrame_and_addrMask _).symm⟩
    · rw [Function.update_of_ne same] at known
      have apart : s.index lapicId d ≠ s.index lapicId c := by
        rw [Smp.index, Smp.index, inv.mode.resolve_left ready]
        exact fun equal => same (injective equal)
      rw [Smp.current_activate, if_neg apart, Smp.asX86_activate, Smp.cr3_activate,
        Function.update_of_ne same]
      exact inv.tracked d other known

/-- After `init_kernel` the boot CPU has the kernel's address space at index 0. -/
theorem currentInv_initKernel {mem : Mem} {slots : Fin maxAddressSpaces → AddressSpaceSlot}
    {alloc : A} {cr3 : C → Word} {h : AddressSpace} {after : Sys A}
    (adopted : (initKernel ((Smp.linked mem slots alloc cr3).cpu lapicId boot)).exec
      (Smp.linked mem slots alloc cr3).toSys = (.ok h, after)) :
    CurrentInv lapicId hasX2apic boot (Function.update (fun _ => none) boot (some h))
      { Smp.linked mem slots alloc cr3 with toSys := after } := by
  have onlyBoot : ∀ c aspace,
      Function.update (fun _ => none) boot (some h) c = some aspace → c = boot ∧ h = aspace := by
    intro c aspace known
    by_cases same : c = boot
    · rw [same, Function.update_self] at known
      exact ⟨same, Option.some.inj known⟩
    · rw [Function.update_of_ne same] at known
      cases known
  refine ⟨Or.inl rfl, fun _ c aspace known => (onlyBoot c aspace known).1,
    fun c aspace known => ?_⟩
  obtain ⟨rfl, rfl⟩ := onlyBoot c aspace known
  have nonzero : cr3 c &&& addrMask ≠ 0 := by
    intro zero
    rcases initKernel_cases ((Smp.linked mem slots alloc cr3).cpu lapicId c)
      (Smp.linked mem slots alloc cr3).toSys with ⟨_, already, -⟩ | ⟨-, -, done⟩ | ⟨-, other, -⟩
    · cases already
    · rw [done] at adopted
      cases adopted
    · exact other zero
  rw [initKernel_linked nonzero] at adopted
  obtain ⟨outcome, rfl⟩ := Prod.mk.inj adopted
  obtain rfl := Except.ok.inj outcome
  refine ⟨?_, isFrame_and_addrMask _⟩
  change Function.update (fun _ => none) (0 : Fin maxCpus) (some AddressSpace.kas) 0 = _
  rw [Function.update_self]

theorem BootRun.currentInv {mem : Mem} {slots : Fin maxAddressSpaces → AddressSpaceSlot}
    {alloc : A} {cr3 : C → Word}
    (run : BootRun lapicId hasX2apic boot (Smp.linked mem slots alloc cr3) latest s)
    (distinct : Function.Injective fun c => cpuId (RincOs.apicInit hasX2apic) (lapicId c))
    (onlyBoot : ∀ c, cpuIndex (RincOs.apicInit hasX2apic) (lapicId c) = 0 ↔ c = boot) :
    CurrentInv lapicId hasX2apic boot latest s := by
  induction run with
  | initKernel adopted => exact currentInv_initKernel adopted
  | apicInit _ early inductionHypothesis =>
      exact inductionHypothesis.apicInit early ((onlyBoot boot).mpr rfl)
  | activate _ ready c aspace inductionHypothesis =>
      exact inductionHypothesis.activate ready (cpuIndex_injective distinct onlyBoot) c aspace

end

/-- Right after the boot order the kernel's address space is at index 0. -/
theorem exists_bootRun (lapicId : C → BitVec 32) (hasX2apic : Bool) (boot : C) (alloc : A)
    {P : Smp C A → Prop} (all : ∀ mem slots cr3, P (Smp.linked mem slots alloc cr3)) :
    ∃ start latest s, P start ∧ BootRun lapicId hasX2apic boot start latest s ∧
      s.apicMode = apicInit hasX2apic ∧ latest boot = some .kas ∧
      s.currentPerCpu = Function.update (fun _ => none) 0 (some .kas) :=
  ⟨_, _, _, all (fun _ => 0) (fun _ => emptySlot) fun _ => 0x1000,
    .apicInit (.initKernel (initKernel_linked (by decide))) rfl, rfl,
    Function.update_self _ _ _, rfl⟩

/-- Whatever address spaces there are and in whatever order they are activated,
`current()` is right exactly if the boot CPU and no other has index 0. -/
theorem tracksCurrent_iff {lapicId : C → BitVec 32} {hasX2apic : Bool} (boot : C) (alloc : A)
    (distinct : Function.Injective fun c => cpuId (apicInit hasX2apic) (lapicId c)) :
    (∀ mem slots cr3,
        TracksCurrent lapicId hasX2apic boot (Smp.linked mem slots alloc cr3)) ↔
      ∀ c, cpuIndex (apicInit hasX2apic) (lapicId c) = 0 ↔ c = boot := by
  constructor
  · intro tracks
    obtain ⟨start, latest, s, tracked, run, mode, running, table⟩ :=
      exists_bootRun lapicId hasX2apic boot alloc tracks
    have atZero : s.index lapicId boot = 0 := by
      by_contra other
      have current := (tracked latest s run boot .kas running).1
      rw [Smp.current, Machine.current, table, Function.update_of_ne other] at current
      cases current
    intro c
    rw [← mode]
    constructor
    · -- a second CPU with index 0 overwrites what the boot CPU runs on
      intro (shared : s.index lapicId c = 0)
      by_contra other
      have ready : s.apicMode ≠ .none := by
        rw [mode]
        cases hasX2apic <;> decide
      have still : Function.update latest c (some (.slot 0)) boot = some .kas := by
        rw [Function.update_of_ne (Ne.symm other), running]
      have current := (tracked _ _ (run.activate ready c (.slot 0)) boot .kas still).1
      rw [Smp.current_activate, if_pos (atZero.trans shared.symm)] at current
      cases current
    · rintro rfl
      exact atZero
  · intro onlyBoot mem slots cr3 latest s run
    exact (run.currentInv distinct onlyBoot).tracked

end

/-- The `LAPIC_ID` registers of two CPUs with ids 0 and 1. -/
def twoIds (c : Fin 2) : BitVec 32 := BitVec.ofNat 32 c

/-- On two such CPUs, booted on the first, `current()` is right. -/
theorem tracksCurrent_twoIds :
    TracksCurrent twoIds true 0
      (Smp.linked (fun _ => 0) (fun _ => emptySlot) () fun _ => 0x1000) := by
  have distinct : ∀ c d, cpuId .x2apic (twoIds c) = cpuId .x2apic (twoIds d) → c = d := by
    decide
  have injective : Function.Injective fun c => cpuId (apicInit true) (twoIds c) :=
    fun c d => distinct c d
  exact (tracksCurrent_iff 0 () injective).mpr (by decide) _ _ _

/-- The machine of one CPU as it is linked, with the kernel's PML4 at 4 KiB. -/
def linkedOne : Smp Unit Unit :=
  Smp.linked (fun _ => 0) (fun _ => emptySlot) () fun _ => 0x1000

/-- A boot CPU whose local APIC id is 1 runs on the kernel's address space, but
`current()` panics there. -/
theorem current_panics :
    ∃ latest s, BootRun (fun _ => 1) true () linkedOne latest s ∧ latest () = some .kas ∧
      s.current (fun _ => 1) () = none ∧ ¬ TracksCurrent (fun _ => 1) true () linkedOne := by
  have run : BootRun (fun _ => 1) true () linkedOne _ _ :=
    .apicInit (.initKernel (initKernel_linked (by decide))) rfl
  refine ⟨_, _, run, rfl, by decide, fun tracks => ?_⟩
  have current := (tracks _ _ run () .kas rfl).1
  revert current
  decide

end RincOs
