/-
Module: RincOs.Kernel.BootPtAlloc
Purpose: The boot frame allocator: a resumable cursor over the memory map and a
  bounded LIFO list of freed frames.
Trusted boundary: human-reviewed embedding of `kernel/src/svc/vm.rs`
Main exports:
  BootPtAlloc, BootPtAlloc.new, BootPtAlloc.nextFromMap, BootPtAlloc.takeFrame,
  BootPtAlloc.nextFromMapChecked, BootPtAlloc.allocFrame4k, BootPtAlloc.freeFrame4k,
  isUsable, alignUp
-/
import RincOs.Boot.Abi
import RincOs.Hal.Mmu

namespace RincOs

def maxFreeFrames : Nat := 128

def isUsable : MemType → Bool
  | .usable | .bootloaderReclaimable => true
  | _ => false

/-- `align_up`, with the wrapping addition of a release build. -/
def alignUp (value align : Word) : Word :=
  (value + align - 1) &&& ~~~(align - 1)

/-- `u64::checked_add`. -/
def checkedAdd (a b : Word) : Option Word :=
  if a.toNat + b.toNat < 2 ^ 64 then some (a + b) else none

/-- `BootPtAlloc`.  `freeList` is `free_list[..free_count]` with the top of the
stack first. -/
structure BootPtAlloc where
  entriesPtr : Word
  entryCount : Nat
  curEntry : Nat
  curAddr : Word
  hhdmOffset : Word
  freeList : List PhysAddr
  freeList_length : freeList.length ≤ maxFreeFrames

namespace BootPtAlloc

/-- `BootPtAlloc::new`. -/
def new (boot : BootInfo) : Option BootPtAlloc :=
  if boot.hhdmOffset == 0 then none
  else if boot.mem.entriesPtr == 0 || boot.mem.entryCount == 0 then none
  else if boot.mem.entrySize.toNat != memMapEntrySize then none
  else
    some
      { entriesPtr := boot.mem.entriesPtr
        entryCount := boot.mem.entryCount.toNat
        curEntry := 0
        curAddr := 0
        hhdmOffset := boot.hhdmOffset
        freeList := []
        freeList_length := by decide }

/-- `entry_at`; `view` is the array behind `entries_ptr`. -/
def entryAt (view : Nat → MemMapEntry) (self : BootPtAlloc) (idx : Nat) :
    Option MemMapEntry :=
  if self.entryCount ≤ idx then none else some (view idx)

/-- The `continue` of `next_from_map`: go on with the next entry. -/
def skipEntry (self : BootPtAlloc) : BootPtAlloc :=
  { self with curEntry := self.curEntry + 1, curAddr := 0 }

/-- How a round of the loop of `next_from_map` ends: with `None` through `?`,
with `continue`, or with a frame. -/
inductive MapRound where
  | stop
  | skip
  | take (addr : PhysAddr)

/-- One round of the loop of `next_from_map`. -/
def mapRound (view : Nat → MemMapEntry) (self : BootPtAlloc) : MapRound :=
  match self.entryAt view self.curEntry with
  | none => .stop
  | some entry =>
      if !isUsable entry.memType then .skip
      else
        match checkedAdd entry.base entry.len with
        | none => .stop
        | some last =>
            let addr := if self.curAddr < entry.base then entry.base else self.curAddr
            let addr := alignUp addr pageSize
            match checkedAdd addr pageSize with
            | none => .stop
            | some next => if next > last then .skip else .take addr

/-- The loop of `next_from_map`.  Every `continue` advances `cur_entry`, so the
entries left bound the number of rounds. -/
def nextFromMapLoop (view : Nat → MemMapEntry) :
    Nat → BootPtAlloc → Option PhysAddr × BootPtAlloc
  | 0, self => (none, self)
  | rounds + 1, self =>
      match self.mapRound view with
      | .stop => (none, self)
      | .skip => nextFromMapLoop view rounds self.skipEntry
      | .take addr => (some addr, { self with curAddr := addr + pageSize })

/-- `next_from_map`. -/
def nextFromMap (view : Nat → MemMapEntry) (self : BootPtAlloc) :
    Option PhysAddr × BootPtAlloc :=
  nextFromMapLoop view (self.entryCount - self.curEntry) self

/-- `align_up` in a build with overflow checks; `none` is the panic. -/
def alignUpChecked (value align : Word) : Option Word := do
  let sum ← checkedAdd value align
  if sum = 0 then none else some ((sum - 1) &&& ~~~(align - 1))

/-- One round of the loop of `next_from_map` with overflow checks.  The addition for
`cur_addr` repeats the one that `checked_add` has let through. -/
def mapRoundChecked (view : Nat → MemMapEntry) (self : BootPtAlloc) : Option MapRound :=
  match self.entryAt view self.curEntry with
  | none => some .stop
  | some entry =>
      if !isUsable entry.memType then some .skip
      else
        match checkedAdd entry.base entry.len with
        | none => some .stop
        | some last =>
            let addr := if self.curAddr < entry.base then entry.base else self.curAddr
            match alignUpChecked addr pageSize with
            | none => none
            | some addr =>
                match checkedAdd addr pageSize with
                | none => some .stop
                | some next => if next > last then some .skip else some (.take addr)

/-- The loop of `next_from_map` with overflow checks. -/
def nextFromMapLoopChecked (view : Nat → MemMapEntry) :
    Nat → BootPtAlloc → Option (Option PhysAddr × BootPtAlloc)
  | 0, self => some (none, self)
  | rounds + 1, self =>
      match self.mapRoundChecked view with
      | none => none
      | some .stop => some (none, self)
      | some .skip => nextFromMapLoopChecked view rounds self.skipEntry
      | some (.take addr) => some (some addr, { self with curAddr := addr + pageSize })

/-- `next_from_map` in a build with overflow checks. -/
def nextFromMapChecked (view : Nat → MemMapEntry) (self : BootPtAlloc) :
    Option (Option PhysAddr × BootPtAlloc) :=
  nextFromMapLoopChecked view (self.entryCount - self.curEntry) self

/-- `alloc_frame_4k` up to the zeroing: the top of the free list, else the next
frame of the memory map. -/
def takeFrame (view : Nat → MemMapEntry) (self : BootPtAlloc) :
    Option PhysAddr × BootPtAlloc :=
  match free : self.freeList with
  | top :: rest =>
      (some top,
        { self with
          freeList := rest
          freeList_length := by
            have bound := self.freeList_length
            rw [free, List.length_cons] at bound
            omega })
  | [] => self.nextFromMap view

/-- `alloc_frame_4k`. -/
def allocFrame4k (view : Nat → MemMapEntry) (self : BootPtAlloc) (m : Mem) :
    Option PhysAddr × BootPtAlloc × Mem :=
  match self.takeFrame view with
  | (none, after) => (none, after, m)
  | (some paddr, after) => (some paddr, after, zeroFrame m paddr)

/-- `free_frame_4k`: a frame that does not fit the list is dropped. -/
def freeFrame4k (self : BootPtAlloc) (paddr : PhysAddr) : BootPtAlloc :=
  if room : self.freeList.length < maxFreeFrames then
    { self with freeList := paddr :: self.freeList, freeList_length := room }
  else self

end BootPtAlloc

end RincOs
