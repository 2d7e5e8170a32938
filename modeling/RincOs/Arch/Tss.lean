/-
Module: RincOs.Arch.Tss
Purpose: The task-state segment as `arch/x86_64/src/tss.rs` declares and fills it
  and its descriptor as `gdt.rs` builds it, next to the format the processor
  reads.
Trusted boundary: human-reviewed embedding of `tss.rs` and of the TSS parts of
  `gdt.rs`, human-reviewed offsets of the 64-bit TSS and of its descriptor
Main exports:
  Tss64, initTss, tssImage, makeTssDesc, buildTssDesc, cpuRsp0, cpuIst, cpuIomapBase,
  SystemDescriptor, TssDesc.decode
-/
import RincOs.Library.ReprC
import RincOs.Arch.X86Mmu

namespace RincOs

open ReprC

/-! ### What software writes -/

/-- `Tss64`; the array `ist` has seven elements. -/
structure Tss64 where
  rsv0 : BitVec 32
  rsp0 : Word
  rsp1 : Word
  rsp2 : Word
  rsv1 : Word
  ist : Fin 7 → Word
  rsv2 : Word
  rsv3 : BitVec 16
  iopbOffset : BitVec 16

/-- The members in the order of declaration. -/
def Tss64.members (t : Tss64) : List Member :=
  [.ofWord t.rsv0, .ofWord t.rsp0, .ofWord t.rsp1, .ofWord t.rsp2, .ofWord t.rsv1] ++
    (List.finRange 7).map (fun i => .ofWord (t.ist i)) ++
    [.ofWord t.rsv2, .ofWord t.rsv3, .ofWord t.iopbOffset]

/-- The static `TSS` as it is linked. -/
def Tss64.linked : Tss64 :=
  { rsv0 := 0, rsp0 := 0, rsp1 := 0, rsp2 := 0, rsv1 := 0, ist := fun _ => 0, rsv2 := 0
    rsv3 := 0, iopbOffset := 0 }

/-- `align(16)`. -/
def tss64Align : Nat := 16

/-- `size_of::<Tss64>()`. -/
def tss64Size : Nat := structSize tss64Align Tss64.linked.members

def istStackSize : Word := 16 * 1024

def stackTop (s : Word) : Word := s + istStackSize

/-- `init_tss`, where `dfIstStack` is the address of `DF_IST_STACK`. -/
def initTss (tss : Tss64) (dfIstStack rsp0Top : Word) : Tss64 :=
  { tss with
    rsp0 := rsp0Top
    ist := Function.update tss.ist ⟨0, by decide⟩ (stackTop dfIstStack)
    iopbOffset := BitVec.ofNat 16 tss64Size }

/-- The bytes of a `Tss64`; those of the padding are whatever `pad` says. -/
def tssImage (pad : Nat → BitVec 8) (tss : Tss64) : List (BitVec 8) :=
  structImage pad tss64Align tss.members

structure TssDesc where
  lo : Word
  hi : Word
deriving DecidableEq

/-- `make_tss_desc`. -/
def makeTssDesc (tssAddr : Word) (tssLen : BitVec 32) : TssDesc :=
  let limit : Word := (tssLen - 1).setWidth 64
  let lo : Word := 0
  let lo := lo ||| (limit &&& 0xffff)
  let lo := lo ||| (tssAddr &&& 0xffff) <<< 16
  let lo := lo ||| ((tssAddr >>> 16) &&& 0xff) <<< 32
  let lo := lo ||| (0x89 : Word) <<< 40
  let lo := lo ||| (limit &&& 0xf0000) <<< 32
  let lo := lo ||| ((tssAddr >>> 24) &&& 0xff) <<< 56
  { lo := lo, hi := tssAddr >>> 32 }

/-- `build_tss_desc`, where `old` is what `TSS_DESC` held before. -/
def buildTssDesc (old : TssDesc) (tssAddr : Word) : TssDesc :=
  if !isCanonical tssAddr then old else makeTssDesc tssAddr (BitVec.ofNat 32 tss64Size)

/-! ### What the processor reads -/

/-- RSP0 of the 64-bit TSS. -/
def cpuRsp0 (tss : List (BitVec 8)) : Nat := readLE tss 4 8

/-- IST1, …, IST7 of the 64-bit TSS. -/
def cpuIst (tss : List (BitVec 8)) (n : Nat) : Nat := readLE tss (36 + 8 * (n - 1)) 8

/-- The offset of the I/O permission map. -/
def cpuIomapBase (tss : List (BitVec 8)) : Nat := readLE tss 102 2

/-- The limit in a TSS descriptor. -/
def TssDesc.limit (desc : TssDesc) : Nat :=
  desc.lo.toNat % 2 ^ 16 + desc.lo.toNat / 2 ^ 48 % 2 ^ 4 * 2 ^ 16

/-- The base address in a TSS descriptor. -/
def TssDesc.base (desc : TssDesc) : Nat :=
  desc.lo.toNat / 2 ^ 16 % 2 ^ 24 + desc.lo.toNat / 2 ^ 56 % 2 ^ 8 * 2 ^ 24 +
    desc.hi.toNat % 2 ^ 32 * 2 ^ 32

/-- A system descriptor of 16 bytes, taken apart. -/
structure SystemDescriptor where
  base : Nat
  limit : Nat
  type : Nat
  /-- The S bit, clear in system descriptors. -/
  segment : Nat
  dpl : Nat
  present : Nat
  available : Nat
  granularity : Nat
  /-- The bits between AVL and G. -/
  reservedLo : Nat
  /-- The upper half of the second word. -/
  reservedHi : Nat
deriving DecidableEq

def TssDesc.decode (desc : TssDesc) : SystemDescriptor where
  base := desc.base
  limit := desc.limit
  type := desc.lo.toNat / 2 ^ 40 % 2 ^ 4
  segment := desc.lo.toNat / 2 ^ 44 % 2
  dpl := desc.lo.toNat / 2 ^ 45 % 2 ^ 2
  present := desc.lo.toNat / 2 ^ 47 % 2
  available := desc.lo.toNat / 2 ^ 52 % 2
  granularity := desc.lo.toNat / 2 ^ 55 % 2
  reservedLo := desc.lo.toNat / 2 ^ 53 % 2 ^ 2
  reservedHi := desc.hi.toNat / 2 ^ 32

/-- The type of an available 64-bit TSS. -/
def availableTss : Nat := 0x9

end RincOs
