/-
Module: RincOs.Boot.Strings
Purpose: The import of the boot information: `gather_bootinfo` with the strings it
  finds through pointers of the bootloader and copies into its own buffer.
Trusted boundary: human-reviewed embedding of `crates/bootloader/limine/src/lib.rs`;
  the statics of the importer are where the linker puts them, apart from each
  other; `STRBUF_USED` is a variable beside memory; the direct map shows the entries
  of the memory map, and the bootloader maps them nowhere else
Main exports:
  ByteSpan, ImportedBootInfo, ImportStatics, StrView, LimineResponses, physAvailable,
  resolveLiminePtr, cstrView, cstrExamined, strbufAllocCopy, strbufAllocJoin, gatherBootinfo,
  runGatherBootinfo
-/
import RincOs.Library.ByteMemory
import RincOs.Boot.Limine
import RincOs.Kernel.BootPtAlloc

namespace RincOs

open ByteMemory

/-! ### The boot information -/

structure ByteSpan where
  ptr : Word
  len : BitVec 32
deriving DecidableEq, Repr

def ByteSpan.empty : ByteSpan := { ptr := 0, len := 0 }

inductive BootArch
  | x86_64
  | aarch64
deriving DecidableEq, Repr

inductive BootMode
  | unknown
  | bios
  | uefi
deriving DecidableEq, Repr

/-- `BootInfo`, less its header, its padding and the framebuffer, which are the same
in every one. -/
structure ImportedBootInfo extends BootInfo where
  arch : BootArch
  bootMode : BootMode
  cpuCount : BitVec 32
  physAddrBits : BitVec 8
  virtAddrBits : BitVec 8
  acpiRsdp : PhysAddr
  cmdline : ByteSpan
  bootloader : ByteSpan
  bootFlags : BitVec 32
deriving DecidableEq, Repr

def defaultAddrBits : BootArch → BitVec 8 × BitVec 8
  | .x86_64 => (52, 48)
  | .aarch64 => (48, 48)

def minimalBootinfo (arch : BootArch) (cpuCount : BitVec 32) : ImportedBootInfo :=
  { hhdmOffset := 0
    mem := emptyMemmapView.1
    arch := arch
    bootMode := .unknown
    cpuCount := cpuCount
    physAddrBits := (defaultAddrBits arch).1
    virtAddrBits := (defaultAddrBits arch).2
    acpiRsdp := 0
    cmdline := .empty
    bootloader := .empty
    bootFlags := 0 }

/-! ### The importer's own memory -/

def strbufSize : Nat := 4096

def maxStrBytes : Nat := 1024

/-- `STRBUF`: its virtual address and where the kernel image puts it. -/
structure Strbuf where
  ptr : Word
  phys : PhysAddr

/-- The static buffers of the importer.  Each lies in one piece, and they do not
overlap. -/
structure ImportStatics where
  membuf : Membuf
  strbuf : Strbuf
  membuf_mapped : membuf.ptr ≠ 0
  membuf_aligned : membuf.phys.toNat % 8 = 0
  membuf_fits : membuf.phys.toNat + memMapEntrySize * maxMemmap ≤ 2 ^ 64
  strbuf_mapped : strbuf.ptr.toNat + strbufSize ≤ 2 ^ 64
  strbuf_fits : strbuf.phys.toNat + strbufSize ≤ 2 ^ 64
  apart : strbuf.phys.toNat + strbufSize ≤ membuf.phys.toNat ∨
    membuf.phys.toNat + memMapEntrySize * maxMemmap ≤ strbuf.phys.toNat

/-- Memory, and `STRBUF_USED`. -/
structure ImportState where
  mem : Mem
  used : Nat

structure StrView where
  ptr : Word
  len : Nat
deriving DecidableEq

/-- The slice of a `StrView`.  Its address is in the direct map; without one it is not read at
all, see `runGatherBootinfo`. -/
def StrView.bytes (hhdmOffset : Word) (m : Mem) (view : StrView) : List (BitVec 8) :=
  readBytes m (view.ptr - hhdmOffset).toNat view.len

/-! ### Finding a string -/

def physAvailable (phys : Word) : List MemMapEntry → Option Word
  | [] => none
  | entry :: entries => do
      let last ← checkedAdd entry.base entry.len
      if phys ≥ entry.base ∧ phys < last then some (last - phys)
      else physAvailable phys entries

def resolveLiminePtr (ptr hhdmOffset : Word) (entries : List MemMapEntry) :
    Option (Word × Word) :=
  if hhdmOffset ≠ 0 ∧ ptr < hhdmOffset then do
    let max ← physAvailable ptr entries
    some (ptr + hhdmOffset, max)
  else do
    let phys := if hhdmOffset ≠ 0 then ptr - hhdmOffset else ptr
    let max ← physAvailable phys entries
    some (ptr, max)

/-- `cstr_view`; the entries are read from `MEMBUF`, to which `mem.entries_ptr` points. -/
def cstrView (statics : ImportStatics) (ptr hhdmOffset : Word) (mem : MemMapView) (m : Mem) :
    Option StrView :=
  if ptr = 0 ∨ mem.entriesPtr = 0 ∨ mem.entryCount = 0 ∨
      mem.entrySize.toNat ≠ memMapEntrySize then none
  else do
    let entries := (List.range mem.entryCount.toNat).map (statics.membuf.entry m)
    let (virt, max) ← resolveLiminePtr ptr hhdmOffset entries
    let maxLen := min max.toNat maxStrBytes
    if maxLen = 0 then none
    else do
      let bytes := StrView.bytes hhdmOffset m { ptr := virt, len := maxLen }
      let len ← bytes.findIdx? (· = 0)
      if len = 0 then none else some { ptr := virt, len := len }

/-- The entries `cstr_view` looks through. -/
def mapEntries (statics : ImportStatics) (mem : MemMapView) (m : Mem) : List MemMapEntry :=
  (List.range mem.entryCount.toNat).map (statics.membuf.entry m)

/-- The slice in which `cstr_view` looks for the end of the string. -/
def cstrSlice (statics : ImportStatics) (ptr hhdmOffset : Word) (mem : MemMapView) (m : Mem) :
    Option StrView :=
  if ptr = 0 ∨ mem.entriesPtr = 0 ∨ mem.entryCount = 0 ∨
      mem.entrySize.toNat ≠ memMapEntrySize then none
  else do
    let (virt, max) ← resolveLiminePtr ptr hhdmOffset (mapEntries statics mem m)
    let maxLen := min max.toNat maxStrBytes
    if maxLen = 0 then none else some { ptr := virt, len := maxLen }

/-- The addresses of the bytes that `position` compares with NUL: up to the first one that
is NUL, or all of the slice. -/
def StrView.examined (hhdmOffset : Word) (m : Mem) (slice : StrView) : List Word :=
  let count := match (slice.bytes hhdmOffset m).findIdx? (· = 0) with
    | some len => len + 1
    | none => slice.len
  (List.range count).map fun i => slice.ptr + BitVec.ofNat 64 i

/-- The addresses at which `cstr_view` reads bytes of a string. -/
def cstrExamined (statics : ImportStatics) (ptr hhdmOffset : Word) (mem : MemMapView)
    (m : Mem) : List Word :=
  match cstrSlice statics ptr hhdmOffset mem m with
  | none => []
  | some slice => slice.examined hhdmOffset m

/-! ### Keeping a string -/

/-- The next offset of the buffer: `(STRBUF_USED + 7) & !7`. -/
def strbufNext (s : ImportState) : Nat := (s.used + 7) / 8 * 8

/-- `strbuf_alloc_copy` on the slice of `view`. -/
def strbufAllocCopy (statics : ImportStatics) (hhdmOffset : Word) (view : StrView)
    (s : ImportState) : ByteSpan × ImportState :=
  if view.len = 0 then (.empty, s)
  else
    let off := strbufNext s
    let need := view.len
    if off + need > strbufSize then (.empty, s)
    else
      ({ ptr := statics.strbuf.ptr + BitVec.ofNat 64 off, len := BitVec.ofNat 32 need },
        { mem := writeBytes s.mem (statics.strbuf.phys.toNat + off) (view.bytes hhdmOffset s.mem)
          used := off + need })

/-- `strbuf_alloc_join` on the slices of `a` and `b`. -/
def strbufAllocJoin (statics : ImportStatics) (hhdmOffset : Word) (a b : StrView)
    (s : ImportState) : ByteSpan × ImportState :=
  if a.len = 0 then strbufAllocCopy statics hhdmOffset b s
  else if b.len = 0 then strbufAllocCopy statics hhdmOffset a s
  else
    let off := strbufNext s
    let sep : List (BitVec 8) := [0x20]
    let need := a.len + sep.length + b.len
    if off + need > strbufSize then (.empty, s)
    else
      let base := statics.strbuf.phys.toNat
      let cur := off
      let m := writeBytes s.mem (base + cur) (a.bytes hhdmOffset s.mem)
      let cur := cur + a.len
      let m := writeBytes m (base + cur) sep
      let cur := cur + sep.length
      let m := writeBytes m (base + cur) (b.bytes hhdmOffset m)
      ({ ptr := statics.strbuf.ptr + BitVec.ofNat 64 off, len := BitVec.ofNat 32 need },
        { mem := m, used := cur + b.len })

/-! ### `gather_bootinfo` -/

inductive FirmwareType
  | x86Bios
  | uefi32
  | uefi64
  | other (code : Word)
deriving DecidableEq, Repr

/-- What the bootloader has answered. -/
structure LimineResponses where
  revisionValid : Bool
  revisionSupported : Bool
  firmwareType : Option FirmwareType
  hhdm : Option Word
  rsdp : Option Word
  memmap : Option (List LimineEntry)
  /-- The pointer in the answer to the command line request. -/
  cmdline : Option Word
  /-- The pointers to name and version. -/
  bootloaderInfo : Option (Word × Word)

def bootModeOf : Option FirmwareType → BootMode
  | some .x86Bios => .bios
  | some .uefi64 => .uefi
  | some .uefi32 => .uefi
  | _ => .unknown

/-- The memory map of `gather_bootinfo`. -/
def gatherMemmap (statics : ImportStatics) (responses : LimineResponses) (m : Mem) :
    (MemMapView × BitVec 32) × Mem :=
  match responses.memmap with
  | some entries => convertMemmapEntries statics.membuf entries m
  | none => (emptyMemmapView, m)

/-- The command line of `gather_bootinfo`. -/
def gatherCmdline (statics : ImportStatics) (responses : LimineResponses) (hhdmOffset : Word)
    (view : MemMapView) (s : ImportState) : ByteSpan × ImportState :=
  match responses.cmdline.bind fun ptr => cstrView statics ptr hhdmOffset view s.mem with
  | some text => strbufAllocCopy statics hhdmOffset text s
  | none => (.empty, s)

/-- The bootloader's name and version of `gather_bootinfo`. -/
def gatherBootloader (statics : ImportStatics) (responses : LimineResponses)
    (hhdmOffset : Word) (view : MemMapView) (s : ImportState) : ByteSpan × ImportState :=
  match responses.bootloaderInfo with
  | none => (.empty, s)
  | some (namePtr, versionPtr) =>
      let name := cstrView statics namePtr hhdmOffset view s.mem
      let version := cstrView statics versionPtr hhdmOffset view s.mem
      match name, version with
      | some a, some b => strbufAllocJoin statics hhdmOffset a b s
      | some a, none => strbufAllocCopy statics hhdmOffset a s
      | none, some b => strbufAllocCopy statics hhdmOffset b s
      | none, none => (.empty, s)

/-- `gather_bootinfo` on the memory `m`. -/
def gatherBootinfo (statics : ImportStatics) (arch : BootArch) (responses : LimineResponses)
    (cpuCount : BitVec 32) (m : Mem) : ImportedBootInfo × ImportState :=
  if !responses.revisionValid || !responses.revisionSupported then
    (minimalBootinfo arch cpuCount, { mem := m, used := 0 })
  else
    let hhdmOffset := responses.hhdm.getD 0
    let converted := gatherMemmap statics responses m
    let view := converted.1.1
    let cmdline := gatherCmdline statics responses hhdmOffset view { mem := converted.2, used := 0 }
    let bootloader := gatherBootloader statics responses hhdmOffset view cmdline.2
    ({ hhdmOffset := hhdmOffset
       mem := view
       arch := arch
       bootMode := bootModeOf responses.firmwareType
       cpuCount := cpuCount
       physAddrBits := (defaultAddrBits arch).1
       virtAddrBits := (defaultAddrBits arch).2
       acpiRsdp := responses.rsdp.getD 0
       cmdline := cmdline.1
       bootloader := bootloader.1
       bootFlags := converted.1.2 },
      bootloader.2)

/-! ### Without a direct map

If the bootloader has not told the offset of the direct map, `cstr_view` takes a pointer into an
entry of the memory map for the address to read from.  The tables of the bootloader map physical
memory at its offset and nowhere else, so the first byte is a page fault. -/

/-- The pointers `gather_bootinfo` gives to `cstr_view`. -/
def LimineResponses.strings (responses : LimineResponses) : List Word :=
  responses.cmdline.toList ++ responses.bootloaderInfo.toList.flatMap fun info => [info.1, info.2]

/-- `gather_bootinfo` as the processor runs it; `none` is a page fault. -/
def runGatherBootinfo (statics : ImportStatics) (arch : BootArch) (responses : LimineResponses)
    (cpuCount : BitVec 32) (m : Mem) : Option (ImportedBootInfo × ImportState) :=
  let converted := gatherMemmap statics responses m
  let reads (ptr : Word) : Bool := (cstrSlice statics ptr 0 converted.1.1 converted.2).isSome
  if responses.revisionValid && responses.revisionSupported && responses.hhdm.getD 0 == 0 &&
      responses.strings.any reads then none
  else some (gatherBootinfo statics arch responses cpuCount m)

end RincOs
