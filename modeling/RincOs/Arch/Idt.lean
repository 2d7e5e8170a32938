/-
Module: RincOs.Arch.Idt
Purpose: The interrupt descriptor table that `arch/x86_64/src/idt.rs` builds, and
  what the processor takes from a gate.
Trusted boundary: human-reviewed embedding of `idt.rs`, human-reviewed format of
  64-bit interrupt gates
Main exports:
  IdtEntry, setGate, initIdt, IdtEntry.offset, IdtEntry.isPresent, IdtEntry.istIndex,
  IdtEntry.image, GateDescriptor, GateDescriptor.decode,
  initIdt_exception, initIdt_irq, initIdt_timer, initIdt_shootdown, initIdt_other
-/
import RincOs.Library.ReprC
import RincOs.Library.TableFill
import RincOs.Arch.Smp

namespace RincOs

open TableFill ReprC

/-! ### The table -/

structure IdtEntry where
  offsetLo : BitVec 16
  selector : BitVec 16
  ist : BitVec 8
  typeAttr : BitVec 8
  offsetMid : BitVec 16
  offsetHi : BitVec 32
  zero : BitVec 32
deriving DecidableEq

def IdtEntry.missing : IdtEntry :=
  { offsetLo := 0, selector := 0, ist := 0, typeAttr := 0, offsetMid := 0, offsetHi := 0
    zero := 0 }

/-- The 256 entries, by vector. -/
abbrev Idt := BitVec 8 → IdtEntry

def kernelCs : BitVec 16 := 0x08

def timerVec : BitVec 8 := 0xe0

/-- The entry `set_gate` writes. -/
def gate (handler : Word) (ist : BitVec 8) : IdtEntry :=
  { offsetLo := handler.setWidth 16
    selector := kernelCs
    ist := ist &&& 0x7
    typeAttr := 0x8e
    offsetMid := (handler >>> 16).setWidth 16
    offsetHi := (handler >>> 32).setWidth 32
    zero := 0 }

/-- `set_gate`. -/
def setGate (idt : Idt) (vec : BitVec 8) (handler : Word) (ist : BitVec 8) : Idt :=
  Function.update idt vec (gate handler ist)

/-- `init_idt` on the stub tables, the two separate stubs and the table `idt`. -/
def initIdt (isrStubTable : Fin 32 → Word) (irqStubTable : Fin 16 → Word)
    (irq224 irq225 : Word) (idt : Idt) : Idt :=
  let idt := (List.finRange 32).foldl (fun idt (vec : Fin 32) =>
    setGate idt (BitVec.ofNat 8 vec.val) (isrStubTable vec) (if vec.val = 8 then 1 else 0)) idt
  let idt := (List.finRange 16).foldl (fun idt (i : Fin 16) =>
    setGate idt (BitVec.ofNat 8 (32 + i.val)) (irqStubTable i) 0) idt
  let idt := setGate idt timerVec irq224 0
  setGate idt tlbShootdownVec irq225 0

/-! ### What the processor takes from a gate -/

/-- The address the processor jumps to. -/
def IdtEntry.offset (entry : IdtEntry) : Word :=
  BitVec.ofNat 64 (entry.offsetLo.toNat + entry.offsetMid.toNat * 2 ^ 16 +
    entry.offsetHi.toNat * 2 ^ 32)

/-- The P bit. -/
def IdtEntry.isPresent (entry : IdtEntry) : Bool := entry.typeAttr &&& 0x80 != 0

/-- The index into the interrupt stack table, 0 for none. -/
def IdtEntry.istIndex (entry : IdtEntry) : Nat := entry.ist.toNat % 8

/-- The members of an entry; the structure is packed. -/
def IdtEntry.members (entry : IdtEntry) : List Member :=
  [.packed entry.offsetLo, .packed entry.selector, .packed entry.ist, .packed entry.typeAttr,
    .packed entry.offsetMid, .packed entry.offsetHi, .packed entry.zero]

/-- The 16 bytes of an entry; none of them is padding. -/
def IdtEntry.image (entry : IdtEntry) : List (BitVec 8) :=
  structImage (fun _ => 0) 1 entry.members

/-- A 64-bit gate descriptor, taken apart. -/
structure GateDescriptor where
  offset : Nat
  selector : Nat
  ist : Nat
  type : Nat
  /-- The S bit, clear in gates. -/
  segment : Nat
  dpl : Nat
  present : Nat
  /-- The bits above the IST field. -/
  reservedLo : Nat
  /-- The last four bytes. -/
  reservedHi : Nat
deriving DecidableEq

/-- The gate in the 16 bytes at its place in the table. -/
def GateDescriptor.decode (bytes : List (BitVec 8)) : GateDescriptor where
  offset := readLE bytes 0 2 + readLE bytes 6 2 * 2 ^ 16 + readLE bytes 8 4 * 2 ^ 32
  selector := readLE bytes 2 2
  ist := readLE bytes 4 1 % 2 ^ 3
  type := readLE bytes 5 1 % 2 ^ 4
  segment := readLE bytes 5 1 / 2 ^ 4 % 2
  dpl := readLE bytes 5 1 / 2 ^ 5 % 2 ^ 2
  present := readLE bytes 5 1 / 2 ^ 7
  reservedLo := readLE bytes 4 1 / 2 ^ 3
  reservedHi := readLE bytes 12 4

/-- The type of a 64-bit interrupt gate. -/
def interruptGate : Nat := 0xe

theorem offset_gate (handler : Word) (ist : BitVec 8) : (gate handler ist).offset = handler := by
  apply BitVec.eq_of_toNat_eq
  have range := handler.isLt
  simp only [IdtEntry.offset, gate, BitVec.toNat_ofNat, BitVec.toNat_setWidth,
    BitVec.toNat_ushiftRight, Nat.shiftRight_eq_div_pow]
  omega

theorem isPresent_gate (handler : Word) (ist : BitVec 8) :
    (gate handler ist).isPresent = true := by
  simp only [IdtEntry.isPresent, gate]
  decide

/-! ### The loops -/

section

variable (isrStubTable : Fin 32 → Word) (irqStubTable : Fin 16 → Word) (irq224 irq225 : Word)
variable (idt : Idt)

/-- A run of vectors without repetition. -/
theorem vec_injective {base count : Nat} (fits : base + count ≤ 256) :
    Function.Injective fun i : Fin count => BitVec.ofNat 8 (base + i.val) := by
  intro i other same
  have numbers := congrArg BitVec.toNat same
  simp only [BitVec.toNat_ofNat] at numbers
  omega

/-- The vectors of the two loops, by their numbers. -/
theorem exists_exceptionVec {vec : BitVec 8} (low : vec.toNat < 32) :
    ∃ v : Fin 32, vec = BitVec.ofNat 8 v.val :=
  ⟨⟨vec.toNat, low⟩, (BitVec.ofNat_toNat 8 vec).symm.trans (by simp)⟩

theorem exists_irqVec {vec : BitVec 8} (low : 32 ≤ vec.toNat) (high : vec.toNat < 48) :
    ∃ i : Fin 16, vec = BitVec.ofNat 8 (32 + i.val) := by
  refine ⟨⟨vec.toNat - 32, by omega⟩, ?_⟩
  apply BitVec.eq_of_toNat_eq
  rw [BitVec.toNat_ofNat]
  simp only
  omega

theorem initIdt_exception (vec : Fin 32) :
    initIdt isrStubTable irqStubTable irq224 irq225 idt (BitVec.ofNat 8 vec.val) =
      gate (isrStubTable vec) (if vec.val = 8 then 1 else 0) := by
  have notIrq : ∀ i : Fin 16, BitVec.ofNat 8 (32 + i.val) ≠ BitVec.ofNat 8 vec.val := by
    revert vec; decide
  have notTimer : BitVec.ofNat 8 vec.val ≠ timerVec := by revert vec; decide
  have notShootdown : BitVec.ofNat 8 vec.val ≠ tlbShootdownVec := by revert vec; decide
  simp only [initIdt, setGate]
  rw [Function.update_of_ne notShootdown, Function.update_of_ne notTimer,
    foldl_update_other fun i _ => notIrq i]
  have distinct : Function.Injective fun vec : Fin 32 => BitVec.ofNat 8 vec.val := by
    simpa using @vec_injective 0 32 (by decide)
  exact foldl_update_self distinct (List.nodup_finRange 32) (List.mem_finRange vec) idt

theorem initIdt_irq (i : Fin 16) :
    initIdt isrStubTable irqStubTable irq224 irq225 idt (BitVec.ofNat 8 (32 + i.val)) =
      gate (irqStubTable i) 0 := by
  have notTimer : BitVec.ofNat 8 (32 + i.val) ≠ timerVec := by revert i; decide
  have notShootdown : BitVec.ofNat 8 (32 + i.val) ≠ tlbShootdownVec := by revert i; decide
  simp only [initIdt, setGate]
  rw [Function.update_of_ne notShootdown, Function.update_of_ne notTimer]
  exact foldl_update_self (vec_injective (by decide)) (List.nodup_finRange 16)
    (List.mem_finRange i) _

theorem initIdt_timer :
    initIdt isrStubTable irqStubTable irq224 irq225 idt timerVec = gate irq224 0 := by
  have notShootdown : timerVec ≠ tlbShootdownVec := by decide
  simp only [initIdt, setGate]
  rw [Function.update_of_ne notShootdown]
  exact Function.update_self _ _ _

theorem initIdt_shootdown :
    initIdt isrStubTable irqStubTable irq224 irq225 idt tlbShootdownVec = gate irq225 0 := by
  simp only [initIdt, setGate]
  exact Function.update_self _ _ _

/-- No other entry is written. -/
theorem initIdt_other {vec : BitVec 8} (notTable : 48 ≤ vec.toNat)
    (notTimer : vec ≠ timerVec) (notShootdown : vec ≠ tlbShootdownVec) :
    initIdt isrStubTable irqStubTable irq224 irq225 idt vec = idt vec := by
  have irqs : ∀ i : Fin 16, BitVec.ofNat 8 (32 + i.val) ≠ vec := by
    intro i same
    have numbers := congrArg BitVec.toNat same
    simp only [BitVec.toNat_ofNat] at numbers
    omega
  have exceptions : ∀ v : Fin 32, BitVec.ofNat 8 v.val ≠ vec := by
    intro v same
    have numbers := congrArg BitVec.toNat same
    simp only [BitVec.toNat_ofNat] at numbers
    omega
  simp only [initIdt, setGate]
  rw [Function.update_of_ne notShootdown, Function.update_of_ne notTimer,
    foldl_update_other fun i _ => irqs i, foldl_update_other fun v _ => exceptions v]

end

end RincOs
