/-
Module: RincOs.Proofs.Ticks
Purpose: How exact the conversion of nanoseconds to ticks is.  The product is
  taken in 64 bits and saturates, so the quotient is right up to the first
  product with another quotient than that of the largest word.
Trusted boundary: none
Main exports:
  exactTicks, tickLimit, TicksExact, ticksFromNs_exact, ticksExact_iff,
  ticksExact_second, ticks_saturate
-/
import RincOs.Arch.Tsc

namespace RincOs

open TimeState

/-! ### The conversion -/

theorem toNat_saturatingMul (a b : Word) :
    (saturatingMul a b).toNat = min (a.toNat * b.toNat) (2 ^ 64 - 1) := by
  rw [saturatingMul]
  split
  · rename_i fits
    rw [BitVec.toNat_mul, Nat.mod_eq_of_lt fits]
    omega
  · rw [BitVec.toNat_allOnes]
    omega

/-- The ticks of a span of nanoseconds at a frequency. -/
def exactTicks (hz ns : Nat) : Nat := ns * hz / 1000000000

/-- The first product whose quotient is not that of the largest word. -/
def tickLimit : Nat := 18446744074 * 1000000000

/-- Saturating changes no quotient below the limit and every quotient from it on. -/
theorem saturated_div_eq_iff (product : Nat) :
    min product (2 ^ 64 - 1) / 1000000000 = product / 1000000000 ↔ product < tickLimit := by
  rw [tickLimit]
  omega

/-- The ticks `tsc.rs` and `time.rs` compute. -/
def saturatedTicks (hz ns : Word) : Word := saturatingMul ns hz / 1000000000

theorem toNat_saturatedTicks (hz ns : Word) :
    (saturatedTicks hz ns).toNat = min (ns.toNat * hz.toNat) (2 ^ 64 - 1) / 1000000000 := by
  rw [saturatedTicks, BitVec.toNat_udiv, toNat_saturatingMul]
  rfl

theorem saturatedTicks_exact_iff (hz ns : Word) :
    (saturatedTicks hz ns).toNat = exactTicks hz.toNat ns.toNat ↔
      ns.toNat * hz.toNat < tickLimit := by
  rw [toNat_saturatedTicks, exactTicks, saturated_div_eq_iff]

/-- The quotients of two parts miss the quotient of the whole by one at most. -/
theorem exactTicks_add (hz a b : Nat) :
    exactTicks hz (a + b) = exactTicks hz a + exactTicks hz b ∨
      exactTicks hz (a + b) = exactTicks hz a + exactTicks hz b + 1 := by
  rw [exactTicks, exactTicks, exactTicks, Nat.add_mul]
  omega

section

variable {s : TimeState}

theorem hz_eq (known : s.tscHz ≠ 0) : s.hz = some s.tscHz := if_neg known

theorem ticksFromNs_eq (known : s.tscHz ≠ 0) (ns : Word) :
    s.ticksFromNs ns = some (saturatedTicks s.tscHz ns) := by
  rw [ticksFromNs, hz_eq known]
  rfl

/-- The timer armed so many ticks from now, unless there are none. -/
def TimeState.armAfter (s : TimeState) (ticks : Word) : TimeState :=
  if ticks = 0 then s else { s with deadline := s.tsc + ticks }

theorem armAfter_inj {ticks ticks' : Word} (nonzero : ticks ≠ 0) (nonzero' : ticks' ≠ 0)
    (same : s.armAfter ticks = s.armAfter ticks') : ticks = ticks' := by
  rw [armAfter, armAfter, if_neg nonzero, if_neg nonzero'] at same
  have deadlines : s.tsc + ticks = s.tsc + ticks' := congrArg TimeState.deadline same
  exact (BitVec.add_right_inj s.tsc).mp deadlines

theorem armNextTick_eq (known : s.tscHz ≠ 0) (registered : s.registered = true) :
    s.armNextTick = s.armAfter (saturatedTicks s.tscHz tickNs) := by
  have frequency : s.frequencyHz = s.tscHz := by
    rw [frequencyHz, if_pos registered, hz_eq known]
    rfl
  have now : s.nowTicks = s.tsc := if_pos registered
  have arm : ∀ ticks, s.armOneShot ticks = { s with deadline := ticks } :=
    fun _ => if_pos registered
  simp only [armNextTick, frequency, if_neg known, now, arm]
  rfl

end

/-! ### Where it is exact -/

/-- For the span `ns` the ticks are exact, those of two spans that make it up add up to them
or to one less, and the kernel's own tick is the exact one and the one of `ticks_from_ns`. -/
structure TicksExact (s : TimeState) (ns : Word) : Prop where
  exact : ∃ ticks, s.ticksFromNs ns = some ticks ∧
    ticks.toNat = exactTicks s.tscHz.toNat ns.toNat
  additive : ∀ a b : Word, a.toNat + b.toNat = ns.toNat →
    ∃ ta tb tab, s.ticksFromNs a = some ta ∧ s.ticksFromNs b = some tb ∧
      s.ticksFromNs ns = some tab ∧
      (tab.toNat = ta.toNat + tb.toNat ∨ tab.toNat = ta.toNat + tb.toNat + 1)
  agrees : ∃ ticks, s.ticksFromNs tickNs = some ticks ∧ s.armNextTick = s.armAfter ticks
  tick : s.armNextTick =
    s.armAfter (BitVec.ofNat 64 (exactTicks s.tscHz.toNat tickNs.toNat))

section

variable {s : TimeState}

/-- The kernel's tick takes the same quotient. -/
theorem tick_exact_iff (known : s.tscHz ≠ 0) (registered : s.registered = true) :
    s.armNextTick = s.armAfter (BitVec.ofNat 64 (exactTicks s.tscHz.toNat tickNs.toNat)) ↔
      tickNs.toNat * s.tscHz.toNat < tickLimit := by
  have range := s.tscHz.isLt
  have tick : tickNs.toNat = 10000000 := rfl
  have fits : exactTicks s.tscHz.toNat tickNs.toNat < 2 ^ 64 := by
    rw [exactTicks, tick]
    omega
  have exact := saturatedTicks_exact_iff s.tscHz tickNs
  rw [armNextTick_eq known registered, ← exact]
  constructor
  · intro same
    by_contra differ
    rw [exact, tickLimit] at differ
    -- both numbers of ticks are positive, so both arm the timer
    have saturated := toNat_saturatedTicks s.tscHz tickNs
    have nonzero : saturatedTicks s.tscHz tickNs ≠ 0 := by
      intro zero
      rw [zero] at saturated
      change 0 = _ at saturated
      omega
    have nonzero' : BitVec.ofNat 64 (exactTicks s.tscHz.toNat tickNs.toNat) ≠ 0 := by
      intro zero
      have number := congrArg BitVec.toNat zero
      rw [BitVec.toNat_ofNat, Nat.mod_eq_of_lt fits, exactTicks] at number
      change _ = 0 at number
      omega
    have ticks := congrArg BitVec.toNat (armAfter_inj nonzero nonzero' same)
    rw [BitVec.toNat_ofNat, Nat.mod_eq_of_lt fits, exact, tickLimit] at ticks
    exact differ ticks
  · intro same
    rw [← same, BitVec.ofNat_toNat, BitVec.setWidth_eq]

/-- A span below the limit is converted exactly. -/
theorem ticksFromNs_exact (known : s.tscHz ≠ 0) {ns : Word}
    (below : ns.toNat * s.tscHz.toNat < tickLimit) :
    ∃ ticks, s.ticksFromNs ns = some ticks ∧
      ticks.toNat = exactTicks s.tscHz.toNat ns.toNat :=
  ⟨_, ticksFromNs_eq known ns, (saturatedTicks_exact_iff _ _).mpr below⟩

/-- With a registered timer the conversion of `ns` is exact exactly if neither its product
nor that of the kernel's tick reaches the limit. -/
theorem ticksExact_iff (known : s.tscHz ≠ 0) (registered : s.registered = true) (ns : Word) :
    TicksExact s ns ↔
      ns.toNat * s.tscHz.toNat < tickLimit ∧ tickNs.toNat * s.tscHz.toNat < tickLimit := by
  constructor
  · intro isExact
    refine ⟨?_, (tick_exact_iff known registered).mp isExact.tick⟩
    obtain ⟨ticks, answered, exact⟩ := isExact.exact
    rw [ticksFromNs_eq known] at answered
    obtain rfl := Option.some.inj answered
    exact (saturatedTicks_exact_iff _ _).mp exact
  · rintro ⟨below, tickBelow⟩
    constructor
    · exact ticksFromNs_exact known below
    · intro a b parts
      -- the products of the parts are below that of the whole
      have first : a.toNat * s.tscHz.toNat ≤ ns.toNat * s.tscHz.toNat :=
        Nat.mul_le_mul_right _ (by omega)
      have second : b.toNat * s.tscHz.toNat ≤ ns.toNat * s.tscHz.toNat :=
        Nat.mul_le_mul_right _ (by omega)
      obtain ⟨ta, isA, exactA⟩ := ticksFromNs_exact known (first.trans_lt below)
      obtain ⟨tb, isB, exactB⟩ := ticksFromNs_exact known (second.trans_lt below)
      obtain ⟨tab, isAB, exactAB⟩ := ticksFromNs_exact known below
      refine ⟨ta, tb, tab, isA, isB, isAB, ?_⟩
      rw [exactA, exactB, exactAB, ← parts]
      exact exactTicks_add _ _ _
    · exact ⟨_, ticksFromNs_eq known tickNs, armNextTick_eq known registered⟩
    · exact (tick_exact_iff known registered).mpr tickBelow

end

/-! ### A clock of 3 GHz -/

/-- A crystal of 24 MHz and a ratio of 250 to 2. -/
def crystalCpuid : Cpuid := fun leaf =>
  if leaf = 0 then { eax := 0x16, ebx := 0, ecx := 0, edx := 0 }
  else if leaf = 1 then { eax := 0, ebx := 0, ecx := 0x01000000, edx := 0 }
  else if leaf = 0x15 then { eax := 2, ebx := 250, ecx := 24000000, edx := 0 }
  else if leaf = 0x80000000 then { eax := 0x80000008, ebx := 0, ecx := 0, edx := 0 }
  else if leaf = 0x80000001 then { eax := 0, ebx := 0, ecx := 0, edx := 0x08100000 }
  else if leaf = 0x80000007 then { eax := 0, ebx := 0, ecx := 0, edx := 0x100 }
  else { eax := 0, ebx := 0, ecx := 0, edx := 0 }

/-- The clock of this processor after the kernel has booted. -/
def crystalTime : TimeState :=
  TimeState.boot crystalCpuid { tscHz := 0, registered := false, tsc := 5000, deadline := 0 }

/-- One second is converted exactly. -/
theorem ticksExact_second : crystalTime.tscHz = 3000000000 ∧ TicksExact crystalTime 1000000000 :=
  ⟨by decide, (ticksExact_iff (by decide) (by decide) 1000000000).mpr (by decide)⟩

/-- Ten seconds come out as little more than six. -/
theorem ticks_saturate :
    crystalTime.tscHz = 3000000000 ∧ exactTicks 3000000000 10000000000 = 30000000000 ∧
      crystalTime.ticksFromNs 10000000000 = some 18446744073 ∧
      ¬ TicksExact crystalTime 10000000000 := by
  have answered : crystalTime.ticksFromNs 10000000000 = some 18446744073 := by decide
  refine ⟨by decide, by decide, answered, ?_⟩
  intro isExact
  obtain ⟨ticks, same, exact⟩ := isExact.exact
  rw [answered] at same
  obtain rfl := Option.some.inj same
  exact absurd exact (by decide)

end RincOs
