/-
Module: RincOs.Arch.Gdt
Purpose: The descriptor table that `arch/x86_64/src/gdt.rs` builds, and what the
  processor checks when a segment or the task register is loaded from it.
Trusted boundary: human-reviewed embedding of `gdt.rs`, human-reviewed checks of far
  returns, segment loads and `ltr` in 64-bit mode at CPL 0
Main exports:
  FullTable, SegmentDescriptor, SegmentRegs, Segments, Segments.linked,
  Segments.buildFullTable, Segments.loadGdt, Segments.reloadSegments, Segments.loadTss,
  Segments.initGdtAndSegments, Segments.loadTask, Segments.initGdtAndTss, GdtCall
-/
import RincOs.Arch.Idt
import RincOs.Arch.Tss

namespace RincOs

/-! ### The table -/

def kernelDs : BitVec 16 := 0x10
def tssSel : BitVec 16 := 0x18

def gdtCode64 : Word := 0x00af9a000000ffff
def gdtData : Word := 0x00cf92000000ffff

/-- `FullTable`.  Its parts are packed, so the words lie side by side. -/
structure FullTable where
  gdt : Fin 3 → Word
  tss : TssDesc

def FullTable.words (full : FullTable) : List Word :=
  [full.gdt 0, full.gdt 1, full.gdt 2, full.tss.lo, full.tss.hi]

/-- `GDT_BYTES`. -/
def gdtBytes : Nat := 8 * 3 + 16

/-! ### What the processor loads -/

/-- A segment descriptor of 8 bytes, without base and limit, which 64-bit mode
ignores. -/
structure SegmentDescriptor where
  type : Nat
  /-- The S bit, set for code and data. -/
  segment : Nat
  dpl : Nat
  present : Nat
  /-- The L bit, set for 64-bit code. -/
  long : Nat
  /-- The D bit. -/
  defaultSize : Nat
deriving DecidableEq

def SegmentDescriptor.decode (w : Word) : SegmentDescriptor where
  type := w.toNat / 2 ^ 40 % 2 ^ 4
  segment := w.toNat / 2 ^ 44 % 2
  dpl := w.toNat / 2 ^ 45 % 2 ^ 2
  present := w.toNat / 2 ^ 47 % 2
  long := w.toNat / 2 ^ 53 % 2
  defaultSize := w.toNat / 2 ^ 54 % 2

/-- 64-bit code that is not conforming, for CPL 0. -/
def SegmentDescriptor.IsKernelCode (d : SegmentDescriptor) : Prop :=
  d.segment = 1 ∧ d.present = 1 ∧ d.type / 8 = 1 ∧ d.type / 4 % 2 = 0 ∧ d.dpl = 0 ∧
    d.long = 1 ∧ d.defaultSize = 0

/-- Writable data, for CPL 0. -/
def SegmentDescriptor.IsKernelData (d : SegmentDescriptor) : Prop :=
  d.segment = 1 ∧ d.present = 1 ∧ d.type / 8 = 0 ∧ d.type / 2 % 2 = 1 ∧ d.dpl = 0

instance (d : SegmentDescriptor) : Decidable d.IsKernelCode :=
  inferInstanceAs (Decidable (_ ∧ _))

instance (d : SegmentDescriptor) : Decidable d.IsKernelData :=
  inferInstanceAs (Decidable (_ ∧ _))

/-- The selectors, and behind CS, SS and TR what was loaded with them.  `gdtr` is the
limit while `FULL` is the table in use, and `none` while it is the one of the
bootloader. -/
structure SegmentRegs where
  gdtr : Option (BitVec 16)
  cs : BitVec 16
  ss : BitVec 16
  /-- DS, ES, FS and GS, which are always loaded together. -/
  data : BitVec 16
  tr : BitVec 16
  code : Option SegmentDescriptor
  stack : Option SegmentDescriptor
  task : Option SystemDescriptor

/-- The statics of `gdt.rs` and `tss.rs`, and the registers. -/
structure Segments where
  /-- `GDT`. -/
  gdt : Fin 3 → Word
  /-- `TSS_DESC`. -/
  tssDesc : TssDesc
  /-- `FULL`. -/
  full : FullTable
  /-- `TSS`. -/
  tss : Tss64
  regs : SegmentRegs

namespace Segments

/-- The statics as they are linked, and registers the bootloader has left. -/
def linked (regs : SegmentRegs) : Segments where
  gdt := fun _ => 0
  tssDesc := { lo := 0, hi := 0 }
  full := { gdt := fun _ => 0, tss := { lo := 0, hi := 0 } }
  tss := .linked
  regs := { regs with gdtr := none }

/-- The word of `FULL` a selector names; `none` if it lies beyond the limit, names the
local table, or if another table is in use. -/
def fetch (s : Segments) (sel : BitVec 16) : Option Word := do
  let limit ← s.regs.gdtr
  if sel &&& 0b100 = 0 ∧ (sel ||| 0b111) ≤ limit then s.full.words[sel.toNat / 8]? else none

/-! ### What `gdt.rs` does -/

/-- `init_tss_only`, where `dfIstStack` is the address of `DF_IST_STACK`. -/
def initTssOnly (dfIstStack rsp0Top : Word) (s : Segments) : Segments :=
  { s with tss := initTss s.tss dfIstStack rsp0Top }

/-- `build_gdt_entries_only`. -/
def buildGdtEntriesOnly (s : Segments) : Segments :=
  { s with gdt := Function.update (Function.update s.gdt 1 gdtCode64) 2 gdtData }

/-- `build_tss_desc`, where `TSS` is at `tssAddr`. -/
def buildTssDesc (tssAddr : Word) (s : Segments) : Segments :=
  { s with tssDesc := RincOs.buildTssDesc s.tssDesc tssAddr }

/-- `build_gdt_entries`. -/
def buildGdtEntries (tssAddr : Word) (s : Segments) : Segments :=
  s.buildGdtEntriesOnly.buildTssDesc tssAddr

/-- `build_full_table`. -/
def buildFullTable (s : Segments) : Segments :=
  { s with full := { gdt := s.gdt, tss := s.tssDesc } }

/-- `build_gdt_tss`. -/
def buildGdtTss (dfIstStack tssAddr rsp0Top : Word) (s : Segments) : Segments :=
  ((s.initTssOnly dfIstStack rsp0Top).buildGdtEntries tssAddr).buildFullTable

/-- `load_gdt`. -/
def loadGdt (s : Segments) : Segments :=
  { s with regs := { s.regs with gdtr := some (BitVec.ofNat 16 (gdtBytes - 1)) } }

/-- `retfq` to a new CS. -/
def loadCode (sel : BitVec 16) (s : Segments) : Option Segments := do
  let d := SegmentDescriptor.decode (← s.fetch sel)
  if sel ≠ 0 ∧ d.IsKernelCode then
    return { s with regs := { s.regs with cs := sel, code := some d } }
  else none

/-- DS, ES, SS, FS and GS are loaded with one selector, which SS asks the most of. -/
def loadData (sel : BitVec 16) (s : Segments) : Option Segments := do
  let d := SegmentDescriptor.decode (← s.fetch sel)
  if sel ≠ 0 ∧ d.IsKernelData then
    return { s with regs := { s.regs with data := sel, ss := sel, stack := some d } }
  else none

/-- `reload_segments`. -/
def reloadSegments (s : Segments) : Option Segments := do
  let s ← s.loadCode kernelCs
  s.loadData kernelDs

/-- `load_tss`: `ltr` takes an available TSS of 64 bits at a canonical address and marks
it as busy. -/
def loadTss (s : Segments) : Option Segments := do
  let _ ← s.fetch tssSel
  let _ ← s.fetch (tssSel + 8)
  let d := s.full.tss.decode
  if d.type = availableTss ∧ d.segment = 0 ∧ d.present = 1 ∧ d.reservedHi = 0 ∧
      isCanonical (BitVec.ofNat 64 d.base) = true then
    return { s with
      full := { s.full with tss := { s.full.tss with lo := s.full.tss.lo ||| 2 <<< 40 } }
      regs := { s.regs with tr := tssSel, task := some d } }
  else none

/-- `init_gdt_and_segments` of `lib.rs`. -/
def initGdtAndSegments (dfIstStack rsp0Top : Word) (s : Segments) : Option Segments :=
  ((s.initTssOnly dfIstStack rsp0Top).buildGdtEntriesOnly).buildFullTable.loadGdt.reloadSegments

/-- `load_tss` of `lib.rs`. -/
def loadTask (tssAddr : Word) (s : Segments) : Option Segments :=
  (s.buildTssDesc tssAddr).buildFullTable.loadTss

/-- `init_gdt_and_tss`. -/
def initGdtAndTss (dfIstStack tssAddr rsp0Top : Word) (s : Segments) : Option Segments := do
  let s ← (s.buildGdtTss dfIstStack tssAddr rsp0Top).loadGdt.reloadSegments
  s.loadTss

end Segments

/-! ### Any use of it -/

/-- The functions `gdt.rs` offers. -/
inductive GdtCall where
  | buildGdtTss (rsp0Top : Word)
  | initTssOnly (rsp0Top : Word)
  | buildGdtEntriesOnly
  | buildTssDesc
  | buildGdtEntries
  | buildFullTable
  | loadGdt
  | reloadSegments
  | loadTss
  | initGdtAndTss (rsp0Top : Word)

/-- The call, in an image that has `TSS` and `DF_IST_STACK` at the given addresses. -/
def GdtCall.exec (dfIstStack tssAddr : Word) (s : Segments) : GdtCall → Option Segments
  | .buildGdtTss rsp0Top => some (s.buildGdtTss dfIstStack tssAddr rsp0Top)
  | .initTssOnly rsp0Top => some (s.initTssOnly dfIstStack rsp0Top)
  | .buildGdtEntriesOnly => some s.buildGdtEntriesOnly
  | .buildTssDesc => some (s.buildTssDesc tssAddr)
  | .buildGdtEntries => some (s.buildGdtEntries tssAddr)
  | .buildFullTable => some s.buildFullTable
  | .loadGdt => some s.loadGdt
  | .reloadSegments => s.reloadSegments
  | .loadTss => s.loadTss
  | .initGdtAndTss rsp0Top => s.initGdtAndTss dfIstStack tssAddr rsp0Top

/-- Calls one after the other; `none` is a fault. -/
def runGdt (dfIstStack tssAddr : Word) (calls : List GdtCall) (s : Segments) : Option Segments :=
  calls.foldlM (fun s call => call.exec dfIstStack tssAddr s) s

end RincOs
