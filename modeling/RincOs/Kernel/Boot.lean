/-
Module: RincOs.Kernel.Boot
Purpose: The way from the hand-off of the bootloader to the point where `kmain`
  enables interrupts: what is set up in which order, what is written to the console,
  and where the kernel stops if it cannot go on.
Trusted boundary: human-reviewed embedding of `kernel/src/main.rs`, of
  `kernel/src/kmain.rs`, of `vm::init` and of the initialization in
  `arch/x86_64/src/lib.rs`; masking the legacy PIC is left out
Main exports:
  BufferedAlloc, KernelImage, HandOff, BootStop, Kernel, initCore, vmInit, kmain, kentry
-/
import RincOs.Arch.Features
import RincOs.Arch.Gdt
import RincOs.Kernel.Console
import RincOs.Kernel.Node

namespace RincOs

/-! ### The allocator in place -/

/-- The boot allocator as `PT_ALLOC` has it: every allocation reads the memory map from
the buffer. -/
structure BufferedAlloc (membuf : Membuf) where
  alloc : BootPtAlloc

instance (membuf : Membuf) : PageTableFrameAlloc (BufferedAlloc membuf) where
  allocFrame4k a m :=
    let (frame, after, m') := a.alloc.allocFrame4k (membuf.entry m) m
    (frame, ⟨after⟩, m')
  freeFrame4k a paddr := ⟨a.alloc.freeFrame4k paddr⟩

/-! ### Before and after -/

/-- Where the linker puts things. -/
structure KernelImage where
  statics : ImportStatics
  text : StubText
  /-- `TSS` and `DF_IST_STACK`. -/
  tssAddr : Word
  dfIstStack : Word

/-- What the bootloader leaves. -/
structure HandOff where
  responses : LimineResponses
  mem : Mem
  cpuid : Cpuid
  /-- How the processor takes a change of LMA. -/
  strictLma : Bool
  regs : ControlRegs
  segments : SegmentRegs
  rsp : Word
  lapic : Lapic
  /-- Memory as 32-bit words, for accesses of the APIC driver that miss the device. -/
  ram : PhysAddr → BitVec 32
  tsc : Word
  deadline : Word

/-- Where the kernel stops, and what is on the console by then. -/
inductive BootStop where
  | panicked (message : List Char) (console : Console)
  /-- An exception while no handler is set. -/
  | faulted (console : Console)

/-- The kernel right after it has enabled interrupts. -/
structure Kernel (membuf : Membuf) where
  info : ImportedBootInfo
  sys : Sys (BufferedAlloc membuf)
  control : Control
  segments : Segments
  idt : Idt
  console : Console
  node : Node

/-! ### Stages -/

/-- `arch::init_core`. -/
def initCore (image : KernelImage) (rsp : Word) (s : Segments) : Option (Segments × Idt) := do
  let s ← s.initGdtAndSegments image.dfIstStack rsp
  let idt := image.text.idt
  let s ← s.loadTask image.tssAddr
  return (s, idt)

/-- What `{:?}` prints of a `MapError`. -/
def MapError.debug : MapError → List Char
  | .unaligned => "Unaligned".toList
  | .alreadyMapped => "AlreadyMapped".toList
  | .notMapped => "NotMapped".toList
  | .outOfMemory => "OutOfMemory".toList
  | .invalidArgs => "InvalidArgs".toList

/-- The message after an exception without an error code or an address, once the handler of
the kernel is set. -/
def trapMessage (faultKind : FaultKind) : List Char :=
  faultMessage { kind := .fault, faultKind := faultKind, irq := 0, errorCode := 0, faultAddr := 0 }

/-- `vm::init`; the error is the message of the panic. -/
def vmInit {membuf : Membuf} (info : BootInfo) (cpu : Cpu) (k : Machine) (control : Control) :
    Except (List Char) (Sys (BufferedAlloc membuf) × Control) :=
  match BootPtAlloc.new info with
  | none => .error "vm: missing HHDM or memmap".toList
  | some alloc =>
      match (initKernel cpu).exec { k with ptAlloc := ⟨alloc⟩ } with
      | (.error e, _) => .error ("vm: mmu kernel init failed: ".toList ++ e.debug)
      | (.ok _, s) =>
          match control.enableNx s.nxeEnabled with
          | none => .error (trapMessage .generalProtection)
          | some (nxe, control) => .ok ({ s with nxeEnabled := nxe }, control)

/-- The processor before `interrupts::init`, as `Node` sees it. -/
def HandOff.node (h : HandOff) (info : BootInfo) : Node where
  apic :=
    { cpuid := h.cpuid, hhdm := info.hhdmOffset, lapic := h.lapic, ram := h.ram, mode := .none
      baseVirt := 0 }
  time := { tscHz := 0, registered := false, tsc := h.tsc, deadline := h.deadline }
  handlerSet := false
  interruptFlag := false
  cr3 := h.regs.cr3
  tlb := []
  activity := .idle

def orFault {α : Type} (console : Console) : Option α → Except BootStop α
  | some a => .ok a
  | none => .error (.faulted console)

/-- An exception once the handler is set. -/
def orPanic {α : Type} (console : Console) : Except FaultKind α → Except BootStop α
  | .ok a => .ok a
  | .error kind => .error (.panicked (trapMessage kind) console)

/-- `cpu_index()` while `APIC_MODE` is not set. -/
def bootIndex : Fin maxCpus := cpuIndex .none 0

/-! ### The whole way -/

/-- `kmain` up to `arch::enable_interrupts`, on the memory that `gather_bootinfo` has left. -/
def kmain (image : KernelImage) (h : HandOff) (info : ImportedBootInfo) (m : Mem)
    (control : Control) (console : Console) :
    Except BootStop (Kernel image.statics.membuf) := do
  let console := console.writeStr (ascii "ENTER kmain\n".toList)
  let console := console.log (ascii "[init] arch core".toList)
  let (segments, idt) ← orFault console (initCore image h.rsp (.linked h.segments))
  let console := console.log (ascii "[init] arch mmu".toList)
  let (nxe, control) ← orFault console (control.initFeatures false)
  let console := console.log (ascii "[init] interrupts".toList)
  let console := console.printBootInfo image.statics info m
  let console := console.log (ascii "[init] vm".toList)
  let cpu : Cpu := { cr3 := control.regs.cr3, index := bootIndex }
  match vmInit info.toBootInfo cpu { Machine.boot m with nxeEnabled := nxe } control with
  | .error message => throw (.panicked message console)
  | .ok (sys, control) =>
      let console := console.log (ascii "[init] arch time".toList)
      let console := console.log (ascii "[init] arch irqs".toList)
      let (apicOk, node) ← orPanic console (h.node info.toBootInfo).startIrqs
      if !apicOk then throw (.panicked "arch irqs apic unavailable".toList console)
      let console := console.log (ascii "[init] time".toList)
      let node ← orPanic console node.initTime
      return { info, sys, control, segments, idt, console, node := node.enableInterrupts }

/-- `kentry` up to `arch::enable_interrupts` in `kmain`. -/
def kentry (image : KernelImage) (h : HandOff) :
    Except BootStop (Kernel image.statics.membuf) := do
  let control : Control :=
    { cpuid := h.cpuid, strictLma := h.strictLma, regs := h.regs, log := [] }
  let control ← orFault .linked control.enableSse
  let console := { Console.linked with serial := true }
  let console := console.writeStr (ascii "ENTER kentry\n".toList)
  let (info, imported) ←
    orFault console (runGatherBootinfo image.statics .x86_64 h.responses 1 h.mem)
  let console := console.writeStr (ascii "AFTER bootinfo\n".toList)
  let console := console.init
  let console := console.log (ascii "logger up".toList)
  kmain image h info imported.mem control console

end RincOs
