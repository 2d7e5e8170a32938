/-
Module: RincOs.Boot.Abi
Purpose: The boot-time data shared with the bootloader, as far as the frame
  allocator reads it.
Trusted boundary: human-reviewed embedding of `crates/bootabi/src/lib.rs`
Main exports: MemType, MemMapEntry, MemMapView, BootInfo
-/
import RincOs.Machine.Memory

namespace RincOs

/-- `MemType`, with its `repr(u8)` discriminants in order. -/
inductive MemType where
  | reserved
  | usable
  | acpiReclaimable
  | acpiNvs
  | mmio
  | badMemory
  | bootloaderReclaimable
  | kernelAndModules
deriving DecidableEq, Repr, Inhabited

structure MemMapEntry where
  base : PhysAddr
  len : Word
  memType : MemType
  flags : BitVec 16
deriving DecidableEq, Repr, Inhabited

/-- `size_of::<MemMapEntry>()`: two 8-byte words, a byte, a pad byte and a
16-bit word, rounded up to the alignment of 8. -/
def memMapEntrySize : Nat := 24

structure MemMapView where
  entriesPtr : Word
  entryCount : BitVec 32
  entrySize : BitVec 16
  flags : BitVec 16
deriving DecidableEq, Repr

/-- `BootInfo`, less the fields the frame allocator does not read. -/
structure BootInfo where
  hhdmOffset : Word
  mem : MemMapView
deriving DecidableEq, Repr

end RincOs
