/-
Module: RincOs.Arch.Tsc
Purpose: The time stamp counter as a clock: its frequency from CPUID, the
  conversion of nanoseconds to ticks, and the timer tick of the kernel that is
  programmed with it.
Trusted boundary: human-reviewed embedding of `arch/x86_64/src/tsc.rs`, of the
  TSC parts of `cpuid.rs`, of `crates/hal/src/time.rs` and `kernel/src/time.rs`,
  for a processor that has the instruction and the register they use
Main exports:
  Cpuid, hasRdtscp, hasTscDeadline, tscHz, saturatingMul, TimeState,
  TimeState.ticksFromNs, TimeState.armNextTick, TimeState.boot
-/
import RincOs.Machine.Memory

namespace RincOs

/-- `u64::saturating_mul`. -/
def saturatingMul (a b : Word) : Word :=
  if a.toNat * b.toNat < 2 ^ 64 then a * b else BitVec.allOnes 64

/-! ### The frequency -/

structure CpuidLeaf where
  eax : BitVec 32
  ebx : BitVec 32
  ecx : BitVec 32
  edx : BitVec 32
deriving DecidableEq

/-- `cpuid(leaf, 0)`. -/
abbrev Cpuid := BitVec 32 → CpuidLeaf

def hasLeaf (cpuid : Cpuid) (leaf : BitVec 32) : Bool := leaf ≤ (cpuid 0).eax

def hasInvariantTsc (cpuid : Cpuid) : Bool :=
  if (cpuid 0x80000000).eax < 0x80000007 then false
  else (cpuid 0x80000007).edx &&& (1 <<< 8) != 0

/-- The processor has `RDTSCP`, with which `tsc::now` reads the counter.  The source does not
ask for it. -/
def hasRdtscp (cpuid : Cpuid) : Bool := (cpuid 0x80000001).edx &&& (1 <<< 27) != 0

/-- The processor has `IA32_TSC_DEADLINE` and the mode of the timer that goes with it.  The
source does not ask for it either. -/
def hasTscDeadline (cpuid : Cpuid) : Bool := (cpuid 1).ecx &&& (1 <<< 24) != 0

/-- The second half of `tsc_hz`: the base frequency in MHz of leaf 0x16. -/
def baseHz (cpuid : Cpuid) : Option Word :=
  if hasLeaf cpuid 0x16 then
    let mhz : Word := (cpuid 0x16).eax.setWidth 64
    if mhz ≠ 0 then some (mhz * 1000000) else none
  else none

/-- `tsc_hz`: the crystal frequency times the ratio of leaf 0x15, if it is given. -/
def tscHz (cpuid : Cpuid) : Option Word :=
  if hasLeaf cpuid 0x15 then
    let denom : Word := (cpuid 0x15).eax.setWidth 64
    let numer : Word := (cpuid 0x15).ebx.setWidth 64
    let crystal : Word := (cpuid 0x15).ecx.setWidth 64
    if denom ≠ 0 ∧ numer ≠ 0 ∧ crystal ≠ 0 then some (saturatingMul crystal numer / denom)
    else baseHz cpuid
  else baseHz cpuid

/-! ### The timer -/

/-- The statics of `tsc.rs` and `hal::time`, and the registers of the processor. -/
structure TimeState where
  /-- `TSC_HZ`. -/
  tscHz : Word
  /-- Whether `TIMER` is the TSC timer; there is no other implementation of `TimerOps`. -/
  registered : Bool
  tsc : Word
  /-- `IA32_TSC_DEADLINE`. -/
  deadline : Word
deriving DecidableEq

namespace TimeState

/-- `tsc::init`. -/
def init (cpuid : Cpuid) (s : TimeState) : Bool × TimeState :=
  if !hasInvariantTsc cpuid then (false, { s with tscHz := 0 })
  else (true, { s with tscHz := (RincOs.tscHz cpuid).getD 0 })

/-- `tsc::hz`. -/
def hz (s : TimeState) : Option Word := if s.tscHz = 0 then none else some s.tscHz

/-- `ticks_from_ns`. -/
def ticksFromNs (s : TimeState) (ns : Word) : Option Word := do
  let hz ← s.hz
  some (saturatingMul ns hz / 1000000000)

/-- `tsc::register_timer`. -/
def registerTimer (s : TimeState) : TimeState := { s with registered := true }

/-- `hal::time::now_ticks`. -/
def nowTicks (s : TimeState) : Word := if s.registered then s.tsc else 0

/-- `hal::time::frequency_hz`. -/
def frequencyHz (s : TimeState) : Word := if s.registered then s.hz.getD 0 else 0

/-- `hal::time::arm_one_shot`. -/
def armOneShot (s : TimeState) (deadlineTicks : Word) : TimeState :=
  if s.registered then { s with deadline := deadlineTicks } else s

/-- `TICK_NS`. -/
def tickNs : Word := 10000000

/-- `arm_next_tick`. -/
def armNextTick (s : TimeState) : TimeState :=
  let hz := s.frequencyHz
  if hz = 0 then s
  else
    let ticks := saturatingMul tickNs hz / 1000000000
    if ticks = 0 then s else s.armOneShot (s.nowTicks + ticks)

/-- `init_time_source`, the timer part of `init_irqs` and `time::init`, in the order of
`kmain`. -/
def boot (cpuid : Cpuid) (s : TimeState) : TimeState :=
  let (hasTime, s) := s.init cpuid
  let s := if hasTime then s.registerTimer else s
  s.armNextTick

end TimeState

end RincOs
