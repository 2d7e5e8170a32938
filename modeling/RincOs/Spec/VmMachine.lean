/-
Module: RincOs.Spec.VmMachine
Purpose: What the VM service is for, without page tables and without addresses of
  frames: a partial map for each address space, the positions at which it has
  tables, and the number of frames that are left.  Every answer is determined,
  running out of memory included.
Trusted boundary: specification
Main exports:
  FramePool, FramePool.take, FramePool.give, SpaceSpec, VmSpec, VmSpec.step, VmSpec.boot,
  VmSpec.after, VmSpec.Prescribes, VmSpec.lossOf, VmSpec.frames
-/
import Mathlib.Algebra.BigOperators.Fin
import RincOs.Kernel.BootPtAlloc
import RincOs.Kernel.VmService
import RincOs.Proofs.Operations
import RincOs.Spec.PageMap

namespace RincOs

/-! ### Frames -/

/-- How many frames an allocator has on its list of returned frames, how many it has never
given away, and how many are gone for good. -/
structure FramePool where
  listed : Nat
  ahead : Nat
  lost : Nat
deriving DecidableEq

namespace FramePool

/-- A returned frame goes out before a new one. -/
def take (pool : FramePool) : Option FramePool :=
  if pool.listed ≠ 0 then some { pool with listed := pool.listed - 1 }
  else if pool.ahead ≠ 0 then some { pool with ahead := pool.ahead - 1 }
  else none

/-- A frame that is returned while the list is full is gone. -/
def give (pool : FramePool) : FramePool :=
  if pool.listed < maxFreeFrames then { pool with listed := pool.listed + 1 }
  else { pool with lost := pool.lost + 1 }

def giveAll : Nat → FramePool → FramePool
  | 0, pool => pool
  | count + 1, pool => giveAll count pool.give

/-- Nobody has the frame that was taken last. -/
def drop (pool : FramePool) : FramePool := { pool with lost := pool.lost + 1 }

def total (pool : FramePool) : Nat := pool.listed + pool.ahead + pool.lost

end FramePool

/-! ### Spaces -/

/-- One address space: its pages, and the positions of the tables below its root. -/
structure SpaceSpec where
  pages : PageMap
  tables : Finset (List (Fin entryCount))

def SpaceSpec.empty : SpaceSpec where
  pages := .empty
  tables := ∅

/-- The tables of a space and its root. -/
def SpaceSpec.frames (space : SpaceSpec) : Nat := space.tables.card + 1

/-- The tables along a path are made where they are missing, until there is no frame for
one.  Says whether all of them are there at the end. -/
def reachTables (above : List (Fin entryCount)) : List (Fin entryCount) →
    Finset (List (Fin entryCount)) → FramePool →
    Bool × Finset (List (Fin entryCount)) × FramePool
  | [], tables, pool => (true, tables, pool)
  | i :: rest, tables, pool =>
      if above ++ [i] ∈ tables then reachTables (above ++ [i]) rest tables pool
      else
        match pool.take with
        | none => (false, tables, pool)
        | some pool => reachTables (above ++ [i]) rest (insert (above ++ [i]) tables) pool

/-- A page is mapped once.  Of the frame only the bits of the address field count. -/
def SpaceSpec.mapPage (space : SpaceSpec) (v : VirtAddr) (p : PhysAddr) (flags : MapFlags) :
    Except MapError PageMap :=
  match space.pages (pageOf v) with
  | some _ => .error .alreadyMapped
  | none => .ok (Function.update space.pages (pageOf v) (some (p &&& addrMask, flags)))

/-! ### The service -/

structure VmSpec where
  spaces : Fin maxAddressSpaces → Option SpaceSpec
  pool : FramePool

namespace VmSpec

/-- No space yet, and so many frames. -/
def boot (frames : Nat) : VmSpec where
  spaces := fun _ => none
  pool := { listed := 0, ahead := frames, lost := 0 }

def setSpace (spec : VmSpec) (a : Fin maxAddressSpaces) (space : Option SpaceSpec) : VmSpec :=
  { spec with spaces := Function.update spec.spaces a space }

/-- The frame is taken before a slot is looked for. -/
def new (spec : VmSpec) : VmResult × VmSpec :=
  match spec.pool.take with
  | none => (.handle (.error .outOfMemory), spec)
  | some pool =>
      match (List.finRange maxAddressSpaces).find? fun i => (spec.spaces i).isNone with
      | none => (.handle (.error .outOfMemory), { spec with pool := pool.drop })
      | some i =>
          (.handle (.ok (.slot i)), setSpace { spec with pool := pool } i (some .empty))

def destroy (spec : VmSpec) (a : Fin maxAddressSpaces) (space : SpaceSpec) :
    VmResult × VmSpec :=
  (.handle (.ok (.slot a)),
    setSpace { spec with pool := spec.pool.giveAll space.frames } a none)

/-- The tables made on the way stay, also if there is no frame for the last ones. -/
def map (spec : VmSpec) (a : Fin maxAddressSpaces) (space : SpaceSpec) (v : VirtAddr)
    (p : PhysAddr) (flags : MapFlags) : VmResult × VmSpec :=
  if !aligned4k v || !aligned4k p then (.handle (.error .unaligned), spec)
  else
    let (reached, tables, pool) := reachTables [] (tablePath v) space.tables spec.pool
    let result := if reached then space.mapPage v p flags else .error .outOfMemory
    let pages := result.toOption.getD space.pages
    (.handle (result.map fun _ => .slot a),
      setSpace { spec with pool := pool } a (some { pages := pages, tables := tables }))

/-- The calls that need no frame answer as the partial map does. -/
def onPages (spec : VmSpec) (a : Fin maxAddressSpaces) (space : SpaceSpec) (op : PageOp) :
    VmResult × VmSpec :=
  let (result, pages) := space.pages.step false op
  let result := match result with
    | .updated result => VmResult.handle (result.map fun _ => .slot a)
    | .translated result => VmResult.address result
  (result, spec.setSpace a (some { space with pages := pages }))

/-- A call on a space that does not exist is not specified. -/
def onSpace (spec : VmSpec) (aspace : AddressSpace)
    (answer : Fin maxAddressSpaces → SpaceSpec → VmResult × VmSpec) : VmResult × VmSpec :=
  match aspace with
  | .kas => (.handle (.error .invalidArgs), spec)
  | .slot a =>
      match spec.spaces a with
      | none => (.handle (.error .invalidArgs), spec)
      | some space => answer a space

/-- The answer to a call, and the state after it. -/
def step (spec : VmSpec) : VmCall → VmResult × VmSpec
  | .newAddressSpace _ => spec.new
  | .destroyAddressSpace aspace => spec.onSpace aspace spec.destroy
  | .map4k aspace v p flags => spec.onSpace aspace fun a space => spec.map a space v p flags
  | .unmap4k aspace v => spec.onSpace aspace fun a space => spec.onPages a space (.unmap v)
  | .protect4k aspace v flags =>
      spec.onSpace aspace fun a space => spec.onPages a space (.protect v flags)
  | .translate aspace v =>
      spec.onSpace aspace fun a space => spec.onPages a space (.translate v)

/-- The state after the calls of a history, which lists the latest call first. -/
def after (spec : VmSpec) : List (VmCall × VmResult) → VmSpec
  | [] => spec
  | (call, _) :: past => ((spec.after past).step call).2

/-- Every call of the history was answered as it has to be. -/
def Prescribes (spec : VmSpec) : List (VmCall × VmResult) → Prop
  | [] => True
  | (call, result) :: past =>
      spec.Prescribes past ∧ ((spec.after past).step call).1 = result

/-- The frames that are gone after a call: the one taken for a space that found no slot, and
those of a destroyed space that found no room on the list. -/
def loss (spec : VmSpec) : VmCall → Nat
  | .newAddressSpace _ =>
      if spec.pool.take.isSome ∧ ∀ a, (spec.spaces a).isSome then 1 else 0
  | .destroyAddressSpace (.slot a) =>
      (spec.spaces a).elim 0 fun space => space.frames - (maxFreeFrames - spec.pool.listed)
  | _ => 0

def lossOf (spec : VmSpec) : List (VmCall × VmResult) → Nat
  | [] => 0
  | (call, _) :: past => spec.lossOf past + (spec.after past).loss call

/-- All frames: those of the pool and those of the spaces. -/
def frames (spec : VmSpec) : Nat :=
  spec.pool.total + ∑ a, (spec.spaces a).elim 0 SpaceSpec.frames

end VmSpec

end RincOs
