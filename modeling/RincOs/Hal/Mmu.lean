/-
Module: RincOs.Hal.Mmu
Purpose: The architecture-neutral MMU contract: mapping flags, error kinds and
  the frame-allocator callback through which page-table memory is obtained.
Trusted boundary: human-reviewed embedding of `crates/hal/src/mmu.rs`
Main exports:
  MapFlags, MapError, TranslateError, PageTableFrameAlloc, LawfulFrameAlloc
-/
import RincOs.Machine.Memory

namespace RincOs

/-- `MapFlags`: architecture-neutral mapping intent, one bit per flag.  Bits
without a name may be set as well. -/
structure MapFlags where
  bits : BitVec 32
deriving DecidableEq, Repr, Inhabited

namespace MapFlags

def read : MapFlags := ⟨1#32 <<< 0⟩
def write : MapFlags := ⟨1#32 <<< 1⟩
def exec : MapFlags := ⟨1#32 <<< 2⟩
/-- User-accessible mapping (user mode can access). -/
def user : MapFlags := ⟨1#32 <<< 3⟩
def global : MapFlags := ⟨1#32 <<< 4⟩
def uncached : MapFlags := ⟨1#32 <<< 5⟩

def contains (flags other : MapFlags) : Bool :=
  flags.bits &&& other.bits == other.bits

end MapFlags

inductive MapError where
  | unaligned
  | alreadyMapped
  | notMapped
  | outOfMemory
  | invalidArgs
deriving DecidableEq, Repr

inductive TranslateError where
  | notMapped
  | invalidAddress
deriving DecidableEq, Repr

/-- `PageTableFrameAlloc`: the callback passed as `pt_alloc`.  Allocation may
write memory (it hands out zeroed frames); freeing only updates the allocator. -/
class PageTableFrameAlloc (A : Type) where
  allocFrame4k : A → Mem → Option PhysAddr × A × Mem
  freeFrame4k : A → PhysAddr → A

export PageTableFrameAlloc (allocFrame4k freeFrame4k)

/-- What a client may rely on.  `Held` says which frames are in clients' hands:
an allocation returns a 4 KiB frame nobody holds and touches no memory outside
it, and a frame stays held until it is freed.  Nothing is said about when an
allocation fails, nor about the contents of the frame it returns. -/
class LawfulFrameAlloc (A : Type) [PageTableFrameAlloc A] where
  Valid : A → Prop
  Held : A → PhysAddr → Prop
  alloc_none : ∀ {a a' : A} {m m' : Mem}, Valid a →
    allocFrame4k a m = (none, a', m') →
      Valid a' ∧ m' = m ∧ ∀ g, Held a' g ↔ Held a g
  alloc_some : ∀ {a a' : A} {m m' : Mem} {f : PhysAddr}, Valid a →
    allocFrame4k a m = (some f, a', m') →
      Valid a' ∧ IsFrame f ∧ ¬ Held a f ∧ (∀ g, Held a' g ↔ Held a g ∨ g = f) ∧
        ∀ x, ¬ InFrame f x → m' x = m x
  free : ∀ {a : A} {f : PhysAddr}, Valid a → Held a f →
    Valid (freeFrame4k a f) ∧
      (∀ g, g ≠ f → Held a g → Held (freeFrame4k a f) g) ∧
      ∀ g, Held (freeFrame4k a f) g → Held a g

end RincOs
