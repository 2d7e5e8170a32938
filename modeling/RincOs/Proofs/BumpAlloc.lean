/-
Module: RincOs.Proofs.BumpAlloc
Purpose: A minimal frame allocator and a machine that has just booted, to run
  the backend on concrete inputs.
Trusted boundary: none
Main exports: BumpAlloc, bootCpu, bootSys
-/
import RincOs.Proofs.Recorder

namespace RincOs

/-- Hands out 64 frames in ascending order and takes none back. -/
structure BumpAlloc where
  used : Nat

def bumpFrame (n : Nat) : PhysAddr := BitVec.ofNat 64 (4096 * (n + 1))

instance : PageTableFrameAlloc BumpAlloc where
  allocFrame4k a m :=
    if a.used < 64 then (some (bumpFrame a.used), ⟨a.used + 1⟩, m) else (none, a, m)
  freeFrame4k a _ := a

theorem toNat_bumpFrame {n : Nat} (bound : n < 64) :
    (bumpFrame n).toNat = 4096 * (n + 1) := by
  rw [bumpFrame, BitVec.toNat_ofNat]
  omega

theorem bumpAlloc_cases (a : BumpAlloc) (m : Mem) :
    (a.used < 64 ∧ allocFrame4k a m = (some (bumpFrame a.used), ⟨a.used + 1⟩, m)) ∨
      allocFrame4k a m = (none, a, m) := by
  by_cases bound : a.used < 64
  · exact Or.inl ⟨bound, if_pos bound⟩
  · exact Or.inr (if_neg bound)

instance : LawfulFrameAlloc BumpAlloc where
  Valid _ := True
  Held a f := ∃ n < a.used, n < 64 ∧ f = bumpFrame n
  alloc_none {a a' m m'} _ alloc := by
    rcases bumpAlloc_cases a m with ⟨-, done⟩ | done
    · simp [done] at alloc
    · obtain ⟨rfl, rfl⟩ : a = a' ∧ m = m' := by simpa [done] using alloc
      exact ⟨trivial, rfl, fun _ => Iff.rfl⟩
  alloc_some {a a' m m' f} _ alloc := by
    rcases bumpAlloc_cases a m with ⟨bound, done⟩ | done
    · obtain ⟨rfl, rfl, rfl⟩ : bumpFrame a.used = f ∧ ⟨a.used + 1⟩ = a' ∧ m = m' := by
        simpa [done] using alloc
      have value := toNat_bumpFrame bound
      refine ⟨trivial, (isFrame_iff _).mpr (by omega), ?_, fun g => ?_, fun _ _ => rfl⟩
      · rintro ⟨n, early, inside, same⟩
        have other := toNat_bumpFrame inside
        rw [← same] at other
        omega
      · constructor
        · rintro ⟨n, early, inside, rfl⟩
          rcases Nat.lt_succ_iff_lt_or_eq.mp early with old | rfl
          · exact Or.inl ⟨n, old, inside, rfl⟩
          · exact Or.inr rfl
        · rintro (⟨n, old, inside, rfl⟩ | rfl)
          · exact ⟨n, Nat.lt_succ_of_lt old, inside, rfl⟩
          · exact ⟨a.used, Nat.lt_succ_self _, bound, rfl⟩
    · simp [done] at alloc
  free _ _ := ⟨trivial, fun _ _ held => held, fun _ held => held⟩

/-- The boot CPU, with the bootloader's PML4 at 1 MiB. -/
def bootCpu : Cpu := { cr3 := 0x100000, index := 0 }

/-- A machine right after boot, with the given memory. -/
def bootSys (mem : Mem) : Sys (Recorded BumpAlloc) :=
  { Machine.boot mem with ptAlloc := ⟨⟨0⟩, []⟩ }

end RincOs
