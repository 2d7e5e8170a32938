/-
Module: RincOs.Proofs.Descriptors
Purpose: What `make_tss_desc` and `set_gate` put into their descriptors is what the
  processor takes out of them, and nothing else is in them.
Trusted boundary: none
Main exports:
  decode_makeTssDesc, decode_image, decode_gate, StubText.OwnStub, descriptors_lossless,
  descriptors_kernelImage
-/
import RincOs.Proofs.InterruptFrames
import RincOs.Proofs.TssLayout

namespace RincOs

open ReprC

/-! ### The descriptor of the task-state segment -/

/-- The access byte and the flags of a descriptor, between the fields of base and limit. -/
theorem descriptor_access {lo limitLo addrLo addrMid limitHi addrHi : Nat}
    (limitLoFits : limitLo < 2 ^ 16) (addrLoFits : addrLo < 2 ^ 16)
    (addrMidFits : addrMid < 2 ^ 8) (limitHiFits : limitHi < 2 ^ 4)
    (fields : lo = limitLo + addrLo * 2 ^ 16 + addrMid * 2 ^ 32 + 0x89 * 2 ^ 40 +
      limitHi * 2 ^ 48 + addrHi * 2 ^ 56) :
    lo / 2 ^ 40 % 2 ^ 8 = 0x89 ∧ lo / 2 ^ 52 % 2 ^ 4 = 0 := by
  have from40 : lo / 2 ^ 40 = 0x89 + (limitHi + addrHi * 2 ^ 8) * 2 ^ 8 := by omega
  have from52 : lo / 2 ^ 52 = addrHi * 2 ^ 4 := by omega
  clear fields
  constructor <;> omega

theorem decode_makeTssDesc {tssLen : BitVec 32} (positive : 1 ≤ tssLen.toNat)
    (fits : tssLen.toNat ≤ 2 ^ 20) (tssAddr : Word) :
    (makeTssDesc tssAddr tssLen).decode =
      { base := tssAddr.toNat, limit := tssLen.toNat - 1, type := availableTss, segment := 0
        dpl := 0, present := 1, available := 0, granularity := 0, reservedLo := 0
        reservedHi := 0 } := by
  obtain ⟨limit, base⟩ := makeTssDesc_slices tssAddr tssLen
  obtain ⟨access, flags⟩ := descriptor_access
    (Nat.mod_lt _ (by decide)) (Nat.mod_lt _ (by decide)) (Nat.mod_lt _ (by decide))
    (Nat.mod_lt _ (by decide)) (lo_makeTssDesc tssAddr tssLen)
  have before : (tssLen - 1).toNat = tssLen.toNat - 1 := by
    rw [BitVec.toNat_sub]
    change (2 ^ 32 - 1 + tssLen.toNat) % 2 ^ 32 = _
    omega
  have range := tssAddr.isLt
  have hi := hi_makeTssDesc tssAddr tssLen
  generalize (makeTssDesc tssAddr tssLen) = desc at limit base access flags hi
  rw [TssDesc.decode, SystemDescriptor.mk.injEq, limit, base, hi, availableTss]
  refine ⟨rfl, ?_, ?_, ?_, ?_, ?_, ?_, ?_, ?_, ?_⟩ <;> omega

/-! ### Gates -/

/-- The decoded gate that calls `handler` on stack `ist` of the interrupt stack table. -/
def gateTo (handler : Word) (ist : Nat) : GateDescriptor :=
  { offset := handler.toNat, selector := kernelCs.toNat, ist := ist, type := interruptGate
    segment := 0, dpl := 0, present := 1, reservedLo := 0, reservedHi := 0 }

/-- A read of the whole member `x` of an entry, in front of which the members `before`
stand. -/
theorem readLE_image {w offset : Nat} {entry : IdtEntry} {x : BitVec w}
    (before : List Member) {after : List Member} (bytes : 256 ^ (w / 8) = 2 ^ w)
    (members : entry.members = before ++ .packed x :: after)
    (place : offset = endOf 0 before) :
    readLE entry.image offset (w / 8) = x.toNat := by
  have inside : 0 + w / 8 ≤ (Member.packed x).size := (Nat.zero_add _).le
  have member := @readLE_member (fun _ => 0) 1 0 (w / 8) before (.packed x) after inside
  rw [show padding (Member.packed x).align (endOf 0 before) = 0 from Nat.mod_one _] at member
  rw [IdtEntry.image, members, place]
  apply member.trans
  rw [pow_zero, Nat.div_one, bytes]
  exact Nat.mod_eq_of_lt x.isLt

/-- The processor finds every member of an entry at its place. -/
theorem decode_image (entry : IdtEntry) :
    GateDescriptor.decode entry.image =
      { offset := entry.offsetLo.toNat + entry.offsetMid.toNat * 2 ^ 16 +
          entry.offsetHi.toNat * 2 ^ 32
        selector := entry.selector.toNat
        ist := entry.ist.toNat % 2 ^ 3
        type := entry.typeAttr.toNat % 2 ^ 4
        segment := entry.typeAttr.toNat / 2 ^ 4 % 2
        dpl := entry.typeAttr.toNat / 2 ^ 5 % 2 ^ 2
        present := entry.typeAttr.toNat / 2 ^ 7
        reservedLo := entry.ist.toNat / 2 ^ 3
        reservedHi := entry.zero.toNat } := by
  have offsetLo : readLE entry.image 0 2 = entry.offsetLo.toNat :=
    readLE_image [] (by decide) rfl rfl
  have selector : readLE entry.image 2 2 = entry.selector.toNat :=
    readLE_image [.packed entry.offsetLo] (by decide) rfl (by simp only [endOf_packed]; rfl)
  have ist : readLE entry.image 4 1 = entry.ist.toNat :=
    readLE_image [.packed entry.offsetLo, .packed entry.selector]
      (by decide) rfl (by simp only [endOf_packed]; rfl)
  have typeAttr : readLE entry.image 5 1 = entry.typeAttr.toNat :=
    readLE_image [.packed entry.offsetLo, .packed entry.selector, .packed entry.ist]
      (by decide) rfl (by simp only [endOf_packed]; rfl)
  have offsetMid : readLE entry.image 6 2 = entry.offsetMid.toNat :=
    readLE_image [.packed entry.offsetLo, .packed entry.selector, .packed entry.ist,
      .packed entry.typeAttr] (by decide) rfl (by simp only [endOf_packed]; rfl)
  have offsetHi : readLE entry.image 8 4 = entry.offsetHi.toNat :=
    readLE_image [.packed entry.offsetLo, .packed entry.selector, .packed entry.ist,
      .packed entry.typeAttr, .packed entry.offsetMid]
      (by decide) rfl (by simp only [endOf_packed]; rfl)
  have zero : readLE entry.image 12 4 = entry.zero.toNat :=
    readLE_image [.packed entry.offsetLo, .packed entry.selector, .packed entry.ist,
      .packed entry.typeAttr, .packed entry.offsetMid, .packed entry.offsetHi]
      (by decide) rfl (by simp only [endOf_packed]; rfl)
  rw [GateDescriptor.decode, offsetLo, selector, ist, typeAttr, offsetMid, offsetHi, zero]

theorem decode_gate {ist : BitVec 8} (index : ist.toNat < 8) (handler : Word) :
    GateDescriptor.decode (gate handler ist).image = gateTo handler ist.toNat := by
  have range := handler.isLt
  have offset : (handler.setWidth 16).toNat + ((handler >>> 16).setWidth 16).toNat * 2 ^ 16 +
      ((handler >>> 32).setWidth 32).toNat * 2 ^ 32 = handler.toNat := by
    simp only [BitVec.toNat_setWidth, BitVec.toNat_ushiftRight, Nat.shiftRight_eq_div_pow]
    omega
  have kept : (ist &&& 0x7).toNat = ist.toNat := by
    have masked : (ist &&& 0x7).toNat = ist.toNat % 2 ^ 3 :=
      @WordField.toNat_and_lowMask 8 ist 3 (by decide)
    omega
  simp only [decode_image, gate, gateTo, offset, kept]
  rw [GateDescriptor.mk.injEq]
  refine ⟨rfl, rfl, ?_, rfl, rfl, rfl, rfl, ?_, rfl⟩ <;> omega

/-! ### The table -/

/-- `stub` is where `stubs.S` puts the stub of `vec`. -/
inductive StubText.OwnStub (text : StubText) : BitVec 8 → Word → Prop
  | isr (vec : Fin 32) : OwnStub text (BitVec.ofNat 8 vec.val) (text.isr vec)
  | irq (i : Fin 16) : OwnStub text (BitVec.ofNat 8 (32 + i.val)) (text.irq i)
  | timer : OwnStub text timerVec text.irq224
  | shootdown : OwnStub text tlbShootdownVec text.irq225

/-- The vectors `init_idt` installs, by their numbers. -/
theorem StubText.exists_ownStub (text : StubText) {vec : BitVec 8}
    (installed : vec.toNat < 48 ∨ vec.toNat = 224 ∨ vec.toNat = 225) :
    ∃ stub, text.OwnStub vec stub := by
  rcases installed with inTable | timer | shootdown
  · rcases Nat.lt_or_ge vec.toNat 32 with exception | irq
    · obtain ⟨v, rfl⟩ := exists_exceptionVec exception
      exact ⟨_, .isr v⟩
    · obtain ⟨i, rfl⟩ := exists_irqVec irq inTable
      exact ⟨_, .irq i⟩
  · obtain rfl : vec = timerVec := BitVec.eq_of_toNat_eq timer
    exact ⟨_, .timer⟩
  · obtain rfl : vec = tlbShootdownVec := BitVec.eq_of_toNat_eq shootdown
    exact ⟨_, .shootdown⟩

/-- After `init_idt` the gate of a vector leads to its own stub. -/
theorem StubText.OwnStub.decode_initIdt {text : StubText} {vec : BitVec 8} {stub : Word}
    (own : text.OwnStub vec stub) (idt : Idt) :
    GateDescriptor.decode
        (initIdt text.isr text.irq text.irq224 text.irq225 idt vec).image =
      gateTo stub (if vec = 8 then 1 else 0) := by
  cases own with
  | isr v =>
      have isDoubleFault : BitVec.ofNat 8 v.val = 8 ↔ v.val = 8 := by revert v; decide
      rw [initIdt_exception]
      simp only [isDoubleFault]
      split
      · exact decode_gate (by decide) _
      · exact decode_gate (by decide) _
  | irq i =>
      have notDoubleFault : BitVec.ofNat 8 (32 + i.val) ≠ 8 := by revert i; decide
      rw [initIdt_irq, if_neg notDoubleFault]
      exact decode_gate (by decide) _
  | timer =>
      rw [initIdt_timer]
      exact decode_gate (by decide) _
  | shootdown =>
      rw [initIdt_shootdown]
      exact decode_gate (by decide) _

/-- Both encoders lose nothing: the TSS descriptor gives back base and limit, a gate its
handler and stack, writing a gate leaves the other entries alone, and after `init_idt` each
vector leads to its own stub. -/
theorem descriptors_lossless {tssLen : BitVec 32} (positive : 1 ≤ tssLen.toNat)
    (fits : tssLen.toNat ≤ 2 ^ 20) {ist : BitVec 8} (index : ist.toNat < 8)
    (tssAddr handler : Word) (idt : Idt) (vec : BitVec 8) (text : StubText) :
    (makeTssDesc tssAddr tssLen).decode =
        { base := tssAddr.toNat, limit := tssLen.toNat - 1, type := availableTss, segment := 0
          dpl := 0, present := 1, available := 0, granularity := 0, reservedLo := 0
          reservedHi := 0 } ∧
      GateDescriptor.decode (setGate idt vec handler ist vec).image =
        gateTo handler ist.toNat ∧
      (∀ other, other ≠ vec → setGate idt vec handler ist other = idt other) ∧
      ∀ v : BitVec 8, v.toNat < 48 ∨ v.toNat = 224 ∨ v.toNat = 225 →
        ∃ stub, text.OwnStub v stub ∧
          GateDescriptor.decode
              (initIdt text.isr text.irq text.irq224 text.irq225 idt v).image =
            gateTo stub (if v = 8 then 1 else 0) := by
  refine ⟨decode_makeTssDesc positive fits tssAddr, ?_, ?_, ?_⟩
  · rw [setGate, Function.update_self]
    exact decode_gate index handler
  · intro other different
    exact Function.update_of_ne different _ _
  · intro v installed
    obtain ⟨stub, own⟩ := text.exists_ownStub installed
    exact ⟨stub, own, own.decode_initIdt idt⟩

/-- A segment and a handler at addresses of the kernel image. -/
theorem descriptors_kernelImage :
    (makeTssDesc 0xffffffff80030000 112).decode.base = 0xffffffff80030000 ∧
      (makeTssDesc 0xffffffff80030000 112).decode.limit = 111 ∧
      GateDescriptor.decode (setGate (fun _ => .missing) 8 0xffffffff80001000 1 8).image =
        gateTo 0xffffffff80001000 1 ∧
      ∃ stub, lowText.OwnStub 33 stub ∧
        GateDescriptor.decode (initIdt lowText.isr lowText.irq lowText.irq224 lowText.irq225
          (fun _ => .missing) 33).image = gateTo stub 0 := by
  have lossless := @descriptors_lossless 112 (by decide) (by decide) 1 (by decide)
    0xffffffff80030000 0xffffffff80001000 (fun _ => .missing) 8 lowText
  obtain ⟨segment, written, -, own⟩ := lossless
  rw [segment]
  exact ⟨rfl, rfl, written, own 33 (by decide)⟩

end RincOs
