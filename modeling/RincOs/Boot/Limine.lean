/-
Module: RincOs.Boot.Limine
Purpose: The conversion of the Limine memory map into the buffer of the kernel
  image that the boot frame allocator reads.
Trusted boundary: human-reviewed embedding of `crates/bootloader/limine/src/lib.rs`;
  the padding of a buffer element is written as zero
Main exports:
  EntryType, LimineEntry, mapMemtype, Membuf, Membuf.entry, convertMemmapEntries
-/
import RincOs.Boot.Abi

namespace RincOs

/-- `limine::memory_map::EntryType`; `other` stands for every further value. -/
inductive EntryType where
  | usable
  | reserved
  | acpiReclaimable
  | acpiNvs
  | badMemory
  | bootloaderReclaimable
  | executableAndModules
  | other (code : Word)
deriving DecidableEq, Repr

/-- `limine::memory_map::Entry`. -/
structure LimineEntry where
  base : Word
  length : Word
  entryType : EntryType
deriving DecidableEq, Repr

def maxMemmap : Nat := 1024

/-- `MemMapFlags::TRUNCATED`. -/
def memMapTruncated : Nat := 1 <<< 0

def mapMemtype : EntryType → MemType
  | .usable => .usable
  | .reserved => .reserved
  | .acpiReclaimable => .acpiReclaimable
  | .acpiNvs => .acpiNvs
  | .badMemory => .badMemory
  | .bootloaderReclaimable => .bootloaderReclaimable
  | .executableAndModules => .kernelAndModules
  | .other _ => .reserved

/-! ### The buffer -/

/-- The discriminant of a `MemType`. -/
def MemType.code : MemType → Nat
  | .reserved => 0
  | .usable => 1
  | .acpiReclaimable => 2
  | .acpiNvs => 3
  | .mmio => 4
  | .badMemory => 5
  | .bootloaderReclaimable => 6
  | .kernelAndModules => 7

/-- The `MemType` of a byte.  Bytes that are no discriminant do not occur in the
buffer. -/
def MemType.ofCode : Nat → MemType
  | 1 => .usable
  | 2 => .acpiReclaimable
  | 3 => .acpiNvs
  | 4 => .mmio
  | 5 => .badMemory
  | 6 => .bootloaderReclaimable
  | 7 => .kernelAndModules
  | _ => .reserved

theorem MemType.code_lt (memType : MemType) : memType.code < 8 := by
  cases memType <;> decide

theorem MemType.ofCode_code (memType : MemType) : MemType.ofCode memType.code = memType := by
  cases memType <;> rfl

/-- The third word of an element: `mem_type`, `_pad` and `flags`, then padding. -/
def MemMapEntry.tail (entry : MemMapEntry) : Word :=
  BitVec.ofNat 64 (entry.memType.code + entry.flags.toNat * 2 ^ 16)

/-- The element that three words spell. -/
def MemMapEntry.ofWords (base len tail : Word) : MemMapEntry where
  base := base
  len := len
  memType := .ofCode (tail.toNat % 2 ^ 8)
  flags := BitVec.ofNat 16 (tail.toNat / 2 ^ 16)

theorem MemMapEntry.ofWords_tail (entry : MemMapEntry) :
    MemMapEntry.ofWords entry.base entry.len entry.tail = entry := by
  have code := entry.memType.code_lt
  have flags := entry.flags.isLt
  have value : entry.tail.toNat = entry.memType.code + entry.flags.toNat * 2 ^ 16 := by
    rw [tail, BitVec.toNat_ofNat]
    omega
  have low : entry.tail.toNat % 2 ^ 8 = entry.memType.code := by omega
  have high : entry.tail.toNat / 2 ^ 16 = entry.flags.toNat := by omega
  rw [ofWords, low, high, MemType.ofCode_code, BitVec.ofNat_toNat, BitVec.setWidth_eq]

/-- `MEMBUF`: its virtual address and where the kernel image puts it. -/
structure Membuf where
  ptr : Word
  phys : PhysAddr

/-- Word `n` of the buffer. -/
def Membuf.word (membuf : Membuf) (n : Nat) : Word := membuf.phys + BitVec.ofNat 64 (8 * n)

/-- `membuf[i]`, read from memory. -/
def Membuf.entry (membuf : Membuf) (m : Mem) (i : Nat) : MemMapEntry :=
  .ofWords (m (membuf.word (3 * i))) (m (membuf.word (3 * i + 1)))
    (m (membuf.word (3 * i + 2)))

/-- `membuf[i] = entry`. -/
def Membuf.store (membuf : Membuf) (m : Mem) (i : Nat) (entry : MemMapEntry) : Mem :=
  let m := Function.update m (membuf.word (3 * i)) entry.base
  let m := Function.update m (membuf.word (3 * i + 1)) entry.len
  Function.update m (membuf.word (3 * i + 2)) entry.tail

/-- The element `convert_memmap_entries` writes for an entry. -/
def convertEntry (entry : LimineEntry) : MemMapEntry where
  base := entry.base
  len := entry.length
  memType := mapMemtype entry.entryType
  flags := 0

/-- The loop of `convert_memmap_entries`, from index `i` on. -/
def Membuf.fill (membuf : Membuf) : Nat → List LimineEntry → Mem → Mem
  | _, [], m => m
  | i, entry :: entries, m =>
      membuf.fill (i + 1) entries (membuf.store m i (convertEntry entry))

/-- `empty_memmap_view`. -/
def emptyMemmapView : MemMapView × BitVec 32 :=
  ({ entriesPtr := 0
     entryCount := 0
     entrySize := BitVec.ofNat 16 memMapEntrySize
     flags := 0 }, 0)

/-- `convert_memmap_entries`. -/
def convertMemmapEntries (membuf : Membuf) (entries : List LimineEntry) (m : Mem) :
    (MemMapView × BitVec 32) × Mem :=
  if entries.isEmpty then (emptyMemmapView, m)
  else
    let nTotal := entries.length
    let n := min nTotal maxMemmap
    let truncated := if nTotal > n then memMapTruncated else 0
    (({ entriesPtr := membuf.ptr
        entryCount := BitVec.ofNat 32 n
        entrySize := BitVec.ofNat 16 memMapEntrySize
        flags := BitVec.ofNat 16 truncated }, BitVec.ofNat 32 truncated),
      membuf.fill 0 (entries.take n) m)

end RincOs
