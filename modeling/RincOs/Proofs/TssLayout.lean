/-
Module: RincOs.Proofs.TssLayout
Purpose: What the processor reads from the task-state segment that `init_tss`
  fills, at its own offsets and through the descriptor and the gate of #DF.
Trusted boundary: none
Main exports:
  TssAgrees, makeTssDesc_slices, buildTssDesc_covers, cpuRsp0_tssImage, cpuIst_tssImage,
  cpuIomapBase_tssImage, doubleFault_stack_iff, not_tssAgrees, tss_disagrees_kernelStack
-/
import RincOs.Arch.Tss
import RincOs.Arch.Idt

namespace RincOs

open ReprC

/-! ### The descriptor -/

/-- The six fields of the low half of a descriptor do not overlap. -/
theorem toNat_descriptorFields {limitLo addrLo addrMid limitHi addrHi : Word}
    (limitLoFits : limitLo.toNat < 2 ^ 16) (addrLoFits : addrLo.toNat < 2 ^ 16)
    (addrMidFits : addrMid.toNat < 2 ^ 8) (limitHiFits : limitHi.toNat < 2 ^ 4)
    (addrHiFits : addrHi.toNat < 2 ^ 8) :
    (limitLo ||| addrLo <<< 16 ||| addrMid <<< 32 ||| (0x89 : Word) <<< 40 |||
        limitHi <<< 48 ||| addrHi <<< 56).toNat =
      limitLo.toNat + addrLo.toNat * 2 ^ 16 + addrMid.toNat * 2 ^ 32 + 0x89 * 2 ^ 40 +
        limitHi.toNat * 2 ^ 48 + addrHi.toNat * 2 ^ 56 := by
  have access : (0x89 : Word).toNat = 0x89 := rfl
  have to32 : (limitLo ||| addrLo <<< 16).toNat = limitLo.toNat + addrLo.toNat * 2 ^ 16 :=
    WordField.toNat_or_shiftLeft limitLoFits (by omega)
  have to40 : (limitLo ||| addrLo <<< 16 ||| addrMid <<< 32).toNat = _ :=
    WordField.toNat_or_shiftLeft (by omega) (by omega)
  have to48 : (limitLo ||| addrLo <<< 16 ||| addrMid <<< 32 ||| (0x89 : Word) <<< 40).toNat = _ :=
    WordField.toNat_or_shiftLeft (by omega) (by omega)
  have to56 : (limitLo ||| addrLo <<< 16 ||| addrMid <<< 32 ||| (0x89 : Word) <<< 40 |||
      limitHi <<< 48).toNat = _ :=
    WordField.toNat_or_shiftLeft (by omega) (by omega)
  rw [WordField.toNat_or_shiftLeft (by omega) (by omega)]
  omega

/-- The fields of the low half of a TSS descriptor, from bit 0 up. -/
theorem lo_makeTssDesc (tssAddr : Word) (tssLen : BitVec 32) :
    (makeTssDesc tssAddr tssLen).lo.toNat =
      (tssLen - 1).toNat % 2 ^ 16 + tssAddr.toNat % 2 ^ 16 * 2 ^ 16 +
        tssAddr.toNat / 2 ^ 16 % 2 ^ 8 * 2 ^ 32 + 0x89 * 2 ^ 40 +
        (tssLen - 1).toNat / 2 ^ 16 % 2 ^ 4 * 2 ^ 48 +
        tssAddr.toNat / 2 ^ 24 % 2 ^ 8 * 2 ^ 56 := by
  obtain ⟨limit, isLimit⟩ : ∃ limit : Word, limit = (tssLen - 1).setWidth 64 := ⟨_, rfl⟩
  have number : limit.toNat = (tssLen - 1).toNat := by
    have := (tssLen - 1).isLt
    rw [isLimit, BitVec.toNat_setWidth]
    omega
  have limitLo : (limit &&& 0xffff).toNat = limit.toNat % 2 ^ 16 :=
    @WordField.toNat_and_lowMask 64 limit 16 (by decide)
  have addrLo : (tssAddr &&& 0xffff).toNat = tssAddr.toNat % 2 ^ 16 :=
    @WordField.toNat_and_lowMask 64 tssAddr 16 (by decide)
  have addrMid : ((tssAddr >>> 16) &&& 0xff).toNat = tssAddr.toNat / 2 ^ 16 % 2 ^ 8 :=
    @WordField.toNat_slice 64 tssAddr 16 8 (by decide)
  have addrHi : ((tssAddr >>> 24) &&& 0xff).toNat = tssAddr.toNat / 2 ^ 24 % 2 ^ 8 :=
    @WordField.toNat_slice 64 tssAddr 24 8 (by decide)
  have limitHi : ((limit >>> 16) &&& 0xf).toNat = limit.toNat / 2 ^ 16 % 2 ^ 4 :=
    @WordField.toNat_slice 64 limit 16 4 (by decide)
  -- the source masks the high limit bits in place; they are the slice moved to bit 48
  have moved : (limit &&& 0xf0000) <<< 32 = ((limit >>> 16) &&& 0xf) <<< 48 := by
    apply BitVec.eq_of_toNat_eq
    have masked : (limit &&& 0xf0000).toNat = limit.toNat % 2 ^ 20 / 2 ^ 16 * 2 ^ 16 :=
      @WordField.toNat_and_fieldMask 64 limit 16 20 (by decide) (by decide)
    rw [BitVec.toNat_shiftLeft, BitVec.toNat_shiftLeft, masked, limitHi, Nat.shiftLeft_eq,
      Nat.shiftLeft_eq]
    omega
  have fields := @toNat_descriptorFields (limit &&& 0xffff) (tssAddr &&& 0xffff)
    ((tssAddr >>> 16) &&& 0xff) ((limit >>> 16) &&& 0xf) ((tssAddr >>> 24) &&& 0xff)
    (by omega) (by omega) (by omega) (by omega) (by omega)
  have empty : (0 : Word) ||| (limit &&& 0xffff) = limit &&& 0xffff := BitVec.zero_or
  simp only [makeTssDesc, ← isLimit, moved, empty]
  rw [fields, limitLo, addrLo, addrMid, addrHi, limitHi, number]

/-- Taking the low half of a descriptor apart again. -/
theorem descriptor_slices {lo limitLo addrLo addrMid limitHi addrHi : Nat}
    (limitLoFits : limitLo < 2 ^ 16) (addrLoFits : addrLo < 2 ^ 16)
    (addrMidFits : addrMid < 2 ^ 8) (limitHiFits : limitHi < 2 ^ 4) (addrHiFits : addrHi < 2 ^ 8)
    (fields : lo = limitLo + addrLo * 2 ^ 16 + addrMid * 2 ^ 32 + 0x89 * 2 ^ 40 +
      limitHi * 2 ^ 48 + addrHi * 2 ^ 56) :
    lo % 2 ^ 16 = limitLo ∧ lo / 2 ^ 48 % 2 ^ 4 = limitHi ∧
      lo / 2 ^ 16 % 2 ^ 24 = addrLo + addrMid * 2 ^ 16 ∧ lo / 2 ^ 56 % 2 ^ 8 = addrHi := by
  have bottom : lo % 2 ^ 16 = limitLo := by omega
  have from16 : lo / 2 ^ 16 = addrLo + addrMid * 2 ^ 16 +
      (0x89 + limitHi * 2 ^ 8 + addrHi * 2 ^ 16) * 2 ^ 24 := by omega
  have from48 : lo / 2 ^ 48 = limitHi + addrHi * 2 ^ 8 := by omega
  have from56 : lo / 2 ^ 56 = addrHi := by omega
  clear fields
  refine ⟨bottom, ?_, ?_, ?_⟩ <;> omega

theorem hi_makeTssDesc (tssAddr : Word) (tssLen : BitVec 32) :
    (makeTssDesc tssAddr tssLen).hi.toNat = tssAddr.toNat / 2 ^ 32 := by
  rw [← Nat.shiftRight_eq_div_pow]
  rfl

theorem makeTssDesc_slices (tssAddr : Word) (tssLen : BitVec 32) :
    (makeTssDesc tssAddr tssLen).limit = (tssLen - 1).toNat % 2 ^ 20 ∧
      (makeTssDesc tssAddr tssLen).base = tssAddr.toNat := by
  obtain ⟨limitLo, limitHi, addrLo, addrHi⟩ := descriptor_slices
    (Nat.mod_lt _ (by decide)) (Nat.mod_lt _ (by decide)) (Nat.mod_lt _ (by decide))
    (Nat.mod_lt _ (by decide)) (Nat.mod_lt _ (by decide)) (lo_makeTssDesc tssAddr tssLen)
  have range := tssAddr.isLt
  have hi := hi_makeTssDesc tssAddr tssLen
  constructor
  · rw [TssDesc.limit, limitLo, limitHi]
    omega
  · rw [TssDesc.base, addrLo, addrHi, hi]
    clear limitLo limitHi addrLo addrHi hi
    have low : tssAddr.toNat % 2 ^ 16 + tssAddr.toNat / 2 ^ 16 % 2 ^ 8 * 2 ^ 16 =
        tssAddr.toNat % 2 ^ 24 := by omega
    have middle : tssAddr.toNat % 2 ^ 24 + tssAddr.toNat / 2 ^ 24 % 2 ^ 8 * 2 ^ 24 =
        tssAddr.toNat % 2 ^ 32 := by omega
    rw [low, middle]
    omega

/-! ### The segment

The first member has four bytes and the second is aligned to eight, so four
bytes stay unused between them and every later member stands four bytes behind
the place where the processor looks for it. -/

theorem members_eq (tss : Tss64) :
    tss.members =
      [.ofWord tss.rsv0, .ofWord tss.rsp0, .ofWord tss.rsp1, .ofWord tss.rsp2,
        .ofWord tss.rsv1, .ofWord (tss.ist 0), .ofWord (tss.ist 1), .ofWord (tss.ist 2),
        .ofWord (tss.ist 3), .ofWord (tss.ist 4), .ofWord (tss.ist 5), .ofWord (tss.ist 6),
        .ofWord tss.rsv2, .ofWord tss.rsv3, .ofWord tss.iopbOffset] := by
  simp [Tss64.members, List.finRange_succ]

theorem structSize_members (tss : Tss64) : structSize tss64Align tss.members = 112 := by
  simp [members_eq, structSize, endOf, padding, Member.ofWord, tss64Align]

theorem tss64Size_eq : tss64Size = 112 := structSize_members .linked

section

variable (pad : Nat → BitVec 8) (tss : Tss64)

theorem length_tssImage : (tssImage pad tss).length = 112 := by
  rw [tssImage, length_structImage, structSize_members]

/-- A read inside the word `x` in front of which the members `before` stand. -/
theorem readLE_tssImage {k n offset : Nat} (before : List Member) {x : Word}
    {after : List Member} (members : tss.members = before ++ .ofWord x :: after)
    (inside : k + n ≤ 8)
    (place : offset = endOf 0 before + padding 8 (endOf 0 before) + k) :
    readLE (tssImage pad tss) offset n = x.toNat / 256 ^ k % 256 ^ n := by
  rw [tssImage, members, place]
  exact readLE_member before (.ofWord x) after inside

theorem readLE_rsp0 : readLE (tssImage pad tss) 8 4 = tss.rsp0.toNat / 256 ^ 0 % 256 ^ 4 := by
  apply readLE_tssImage pad tss [.ofWord tss.rsv0] (members_eq tss) (by decide)
  simp [endOf, padding, Member.ofWord]

/-- The processor finds RSP0 four bytes too early: the unused bytes are its low
half, and its high half is the low half of what software wrote. -/
theorem cpuRsp0_tssImage :
    cpuRsp0 (tssImage pad tss) =
      readLE (tssImage pad tss) 4 4 + 2 ^ 32 * (tss.rsp0.toNat % 2 ^ 32) := by
  have halves : readLE (tssImage pad tss) 4 (4 + 4) = _ :=
    readLE_add (by rw [length_tssImage]; decide)
  rw [cpuRsp0, halves, readLE_rsp0]
  norm_num

/-- IST1 is the reserved word in front of `ist`, and the low half of `ist[0]`. -/
theorem cpuIst_tssImage :
    cpuIst (tssImage pad tss) 1 =
      tss.rsv1.toNat / 2 ^ 32 + 2 ^ 32 * ((tss.ist 0).toNat % 2 ^ 32) := by
  have low : readLE (tssImage pad tss) 36 4 = tss.rsv1.toNat / 256 ^ 4 % 256 ^ 4 := by
    apply readLE_tssImage pad tss
      [.ofWord tss.rsv0, .ofWord tss.rsp0, .ofWord tss.rsp1, .ofWord tss.rsp2]
      (members_eq tss) (by decide)
    simp [endOf, padding, Member.ofWord]
  have high : readLE (tssImage pad tss) 40 4 = (tss.ist 0).toNat / 256 ^ 0 % 256 ^ 4 := by
    apply readLE_tssImage pad tss
      [.ofWord tss.rsv0, .ofWord tss.rsp0, .ofWord tss.rsp1, .ofWord tss.rsp2,
        .ofWord tss.rsv1] (members_eq tss) (by decide)
    simp [endOf, padding, Member.ofWord]
  have halves : readLE (tssImage pad tss) 36 (4 + 4) = _ :=
    readLE_add (by rw [length_tssImage]; decide)
  have range := tss.rsv1.isLt
  rw [cpuIst, halves, low, high]
  omega

/-- The offset of the I/O map is the last two bytes of the reserved word behind `ist`. -/
theorem cpuIomapBase_tssImage :
    cpuIomapBase (tssImage pad tss) = tss.rsv2.toNat / 256 ^ 6 % 256 ^ 2 := by
  apply readLE_tssImage pad tss
    [.ofWord tss.rsv0, .ofWord tss.rsp0, .ofWord tss.rsp1, .ofWord tss.rsp2,
      .ofWord tss.rsv1, .ofWord (tss.ist 0), .ofWord (tss.ist 1), .ofWord (tss.ist 2),
      .ofWord (tss.ist 3), .ofWord (tss.ist 4), .ofWord (tss.ist 5), .ofWord (tss.ist 6)]
    (members_eq tss) (by decide)
  simp [endOf, padding, Member.ofWord]

end

/-! ### Software and processor -/

/-- The stack of the interrupt stack table that an interrupt through `entry`
switches to, if it names one. -/
def istStack (tss : List (BitVec 8)) (entry : IdtEntry) : Option Nat :=
  if entry.istIndex = 0 then none else some (cpuIst tss entry.istIndex)

/-- What `init_tss` meant to say is what the processor reads: RSP0, IST1, an I/O
map outside the segment, and the stack of #DF. -/
structure TssAgrees (tss : List (BitVec 8)) (desc : TssDesc) (idt : Idt)
    (dfIstStack rsp0Top : Word) : Prop where
  rsp0 : cpuRsp0 tss = rsp0Top.toNat
  ist1 : cpuIst tss 1 = (stackTop dfIstStack).toNat
  iomap : desc.limit + 1 ≤ cpuIomapBase tss
  doubleFault : istStack tss (idt 8) = some (stackTop dfIstStack).toNat

section

variable (pad : Nat → BitVec 8) (dfIstStack rsp0Top tssAddr : Word)
variable (isrStubTable : Fin 32 → Word) (irqStubTable : Fin 16 → Word) (irq224 irq225 : Word)
variable (idt : Idt)

theorem cpuIst_initTss :
    cpuIst (tssImage pad (initTss .linked dfIstStack rsp0Top)) 1 =
      2 ^ 32 * ((stackTop dfIstStack).toNat % 2 ^ 32) := by
  have reserved : (initTss .linked dfIstStack rsp0Top).rsv1 = 0 := rfl
  have written : (initTss .linked dfIstStack rsp0Top).ist 0 = stackTop dfIstStack := by
    simp [initTss]
  rw [cpuIst_tssImage, reserved, written]
  exact Nat.zero_add _

theorem cpuIomapBase_initTss :
    cpuIomapBase (tssImage pad (initTss .linked dfIstStack rsp0Top)) = 0 := by
  have reserved : (initTss .linked dfIstStack rsp0Top).rsv2 = 0 := rfl
  rw [cpuIomapBase_tssImage, reserved]
  rfl

theorem limit_tss64 : (makeTssDesc tssAddr (BitVec.ofNat 32 tss64Size)).limit = 111 := by
  rw [(makeTssDesc_slices tssAddr _).1, tss64Size_eq]
  rfl

/-- The descriptor itself is right: it covers the segment and nothing else. -/
theorem buildTssDesc_covers {tssAddr : Word} (canonical : isCanonical tssAddr = true)
    (old : TssDesc) :
    (buildTssDesc old tssAddr).limit + 1 = tss64Size ∧
      (buildTssDesc old tssAddr).base = tssAddr.toNat := by
  have built : buildTssDesc old tssAddr = makeTssDesc tssAddr (BitVec.ofNat 32 tss64Size) := by
    rw [buildTssDesc, canonical]
    rfl
  rw [built, limit_tss64, tss64Size_eq]
  exact ⟨rfl, (makeTssDesc_slices tssAddr _).2⟩

theorem istStack_doubleFault (tss : List (BitVec 8)) :
    istStack tss (initIdt isrStubTable irqStubTable irq224 irq225 idt 8) = some (cpuIst tss 1) := by
  have entry := initIdt_exception isrStubTable irqStubTable irq224 irq225 idt 8
  have index : (gate (isrStubTable 8) 1).istIndex = 1 := rfl
  change initIdt isrStubTable irqStubTable irq224 irq225 idt 8 = gate (isrStubTable 8) 1 at entry
  rw [entry, istStack, index]
  rfl

/-- A double fault switches to its own stack only where that stack ends at address 0. -/
theorem doubleFault_stack_iff :
    istStack (tssImage pad (initTss .linked dfIstStack rsp0Top))
        (initIdt isrStubTable irqStubTable irq224 irq225 idt 8) =
          some (stackTop dfIstStack).toNat ↔
      stackTop dfIstStack = 0 := by
  have range := (stackTop dfIstStack).isLt
  rw [istStack_doubleFault, cpuIst_initTss, Option.some_inj, ← BitVec.toNat_inj]
  constructor
  · intro same
    change _ = 0
    omega
  · intro zero
    rw [zero]
    rfl

/-- No run of `init_tss` and `init_idt` gives the processor what software meant. -/
theorem not_tssAgrees :
    ¬ TssAgrees (tssImage pad (initTss .linked dfIstStack rsp0Top))
      (makeTssDesc tssAddr (BitVec.ofNat 32 tss64Size))
      (initIdt isrStubTable irqStubTable irq224 irq225 idt) dfIstStack rsp0Top := by
  intro agrees
  have outside := agrees.iomap
  rw [cpuIomapBase_initTss, limit_tss64] at outside
  omega

end

/-- With the stack of #DF and RSP0 at addresses of the kernel image: both reads give
the low halves in the high places, and #DF is taken on a non-canonical stack. -/
theorem tss_disagrees_kernelStack :
    let tss := tssImage (fun _ => 0) (initTss .linked 0xffffffff80010000 0xffffffff80020000)
    let desc := makeTssDesc 0xffffffff80030000 (BitVec.ofNat 32 tss64Size)
    let idt := initIdt (fun _ => 0xffffffff80001000) (fun _ => 0xffffffff80002000)
      0xffffffff80003000 0xffffffff80004000 (fun _ => .missing)
    ¬ TssAgrees tss desc idt 0xffffffff80010000 0xffffffff80020000 ∧
      cpuRsp0 tss = 0x8002000000000000 ∧
      stackTop 0xffffffff80010000 = 0xffffffff80014000 ∧
      istStack tss (idt 8) = some 0x8001400000000000 ∧
      cpuIomapBase tss = 0 ∧ desc.limit = 111 := by
  intro tss desc idt
  have values : cpuRsp0 tss = 0x8002000000000000 ∧
      stackTop 0xffffffff80010000 = 0xffffffff80014000 ∧
      istStack tss (idt 8) = some 0x8001400000000000 ∧
      cpuIomapBase tss = 0 ∧ desc.limit = 111 := by
    decide +kernel
  refine ⟨?_, values⟩
  intro agrees
  have other := values.1.symm.trans agrees.rsp0
  exact absurd other (by decide)

end RincOs
