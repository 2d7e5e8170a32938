/-
Module: RincOs.Arch.HardwareWalk
Purpose: The page walk of the processor: 4-level paging with 1 GiB and 2 MiB
  pages, the rights accumulated on the way down, and the tables a root reaches.
Trusted boundary: human-reviewed model of x86-64 paging (reserved bits ignored)
Main exports:
  isLarge, HwMapping, hwWalk, largePage, TableAt
-/
import RincOs.Arch.X86Mmu

namespace RincOs

/-- The page-size bit of an entry is set. -/
def isLarge (e : Word) : Bool := e &&& ptePs != 0

/-- Outcome of a successful walk: the physical address and the rights. -/
structure HwMapping where
  phys : PhysAddr
  user : Bool
  writable : Bool
  executable : Bool
deriving DecidableEq, Repr

/-- Rights are accumulated over all entries used: user and write access need
the bit at every level, instruction fetch needs NX clear at every level. -/
def HwMapping.ofEntries (entries : List Word) (phys : PhysAddr) : HwMapping :=
  { phys := phys
    user := entries.all fun e => e &&& pteU != 0
    writable := entries.all fun e => e &&& pteW != 0
    executable := entries.all fun e => e &&& pteNx == 0 }

/-- The walk of `v` from the PML4 at `root`; `none` is a non-present entry. -/
def hwWalk (m : Mem) (root : PhysAddr) (v : VirtAddr) : Option HwMapping :=
  let e1 := readEntry m root (pml4Index v)
  if !present e1 then none else
  let e2 := readEntry m (e1 &&& addrMask) (pdptIndex v)
  if !present e2 then none else
  if isLarge e2 then
    some (.ofEntries [e1, e2]
      ((e2 &&& 0x000fffffc0000000) ||| (v &&& 0x3fffffff)))
  else
  let e3 := readEntry m (e2 &&& addrMask) (pdIndex v)
  if !present e3 then none else
  if isLarge e3 then
    some (.ofEntries [e1, e2, e3]
      ((e3 &&& 0x000fffffffe00000) ||| (v &&& 0x1fffff)))
  else
  let e4 := readEntry m (e3 &&& addrMask) (ptIndex v)
  if !present e4 then none else
  some (.ofEntries [e1, e2, e3, e4] ((e4 &&& addrMask) ||| (v &&& 0xfff)))

/-- The walk of `v` ends at a present entry with PS set, at the PDPT or the PD
level: `v` lies in a 1 GiB or a 2 MiB page. -/
def largePage (m : Mem) (root : PhysAddr) (v : VirtAddr) : Bool :=
  let e1 := readEntry m root (pml4Index v)
  let e2 := readEntry m (e1 &&& addrMask) (pdptIndex v)
  let e3 := readEntry m (e2 &&& addrMask) (pdIndex v)
  present e1 && present e2 && (isLarge e2 || (present e3 && isLarge e3))

/-- The tables the processor can use below `root`: `TableAt m root level t` says
that `t` is a table of the given level, 4 for the PML4 down to 1 for a PT. -/
inductive TableAt (m : Mem) (root : PhysAddr) : Nat → PhysAddr → Prop where
  | pml4 : TableAt m root 4 root
  | pdpt (i : Fin entryCount) (entry : present (readEntry m root i)) :
      TableAt m root 3 (readEntry m root i &&& addrMask)
  | inner {level : Nat} {t : PhysAddr} (above : TableAt m root (level + 2) t)
      (bounded : level < 2) (i : Fin entryCount) (entry : present (readEntry m t i))
      (small : ¬ isLarge (readEntry m t i)) :
      TableAt m root (level + 1) (readEntry m t i &&& addrMask)

/-- `t` is a page-table node of the address space rooted at `root`. -/
def IsTable (m : Mem) (root : PhysAddr) (t : PhysAddr) : Prop :=
  ∃ level, TableAt m root level t

end RincOs
