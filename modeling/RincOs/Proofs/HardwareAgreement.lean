/-
Module: RincOs.Proofs.HardwareAgreement
Purpose: Compare `translate` with the page walk of the processor on arbitrary
  page-table contents.  The two agree exactly off large pages, up to large
  pages that happen to hold entries describing themselves.
Trusted boundary: none
Main exports: TranslateAgrees, largePageReadsBack, translate_agrees_iff
-/
import RincOs.Proofs.EntryBits

namespace RincOs

/-- A result of `translate` reports the outcome of a walk: `Ok(p)` exactly when
the walk ends at `p`, `NotMapped` exactly when it meets a non-present entry. -/
def Reports (result : Except TranslateError PhysAddr) (walk : Option HwMapping) :
    Prop :=
  (∀ p, result = .ok p ↔ walk.map HwMapping.phys = some p) ∧
    (result = .error .notMapped ↔ walk = none)

@[simp] theorem reports_ok_some (p : PhysAddr) (mapping : HwMapping) :
    Reports (.ok p) (some mapping) ↔ p = mapping.phys := by
  constructor
  · rintro ⟨addresses, -⟩
    have found := (addresses p).mp rfl
    exact (Option.some.inj found).symm
  · rintro rfl
    simp [Reports]

@[simp] theorem reports_notMapped_none : Reports (.error .notMapped) none := by
  simp [Reports]

@[simp] theorem not_reports_notMapped_some (mapping : HwMapping) :
    ¬ Reports (.error .notMapped) (some mapping) := by
  simp [Reports]

/-- `translate` agrees with the processor at `v`. -/
def TranslateAgrees (k : Machine) (aspace : AddressSpace) (v : VirtAddr) : Prop :=
  Reports (translate k aspace v) (hwWalk k.mem (k.asX86 aspace).pml4Phys v)

/-- `translate` takes the first bytes of a large page for a table.  The page
reads back when the words found there are present entries that spell the frame
of `v` inside that same large page. -/
def largePageReadsBack (m : Mem) (root : PhysAddr) (v : VirtAddr) : Bool :=
  let e1 := readEntry m root (pml4Index v)
  let e2 := readEntry m (e1 &&& addrMask) (pdptIndex v)
  let e3 := readEntry m (e2 &&& addrMask) (pdIndex v)
  let e4 := readEntry m (e3 &&& addrMask) (ptIndex v)
  let frame :=
    if isLarge e2 then (e2 &&& 0x000fffffc0000000) ||| (v &&& 0x3ffff000)
    else (e3 &&& 0x000fffffffe00000) ||| (v &&& 0x1ff000)
  present e3 && present e4 && e4 &&& addrMask == frame

/-- Comparing physical addresses is comparing frames: the offset inside the
4 KiB page is the same on both sides. -/
private theorem phys_eq_iff {e base v low mid : Word}
    (whole : low = mid ||| 0xfff) (midHigh : mid &&& 0xfff = 0)
    (baseHigh : base &&& 0xfff = 0) :
    (e &&& addrMask) ||| (v &&& 0xfff) = base ||| (v &&& low) ↔
      e &&& addrMask = base ||| (v &&& mid) := by
  have split : base ||| (v &&& low) = (base ||| (v &&& mid)) ||| (v &&& 0xfff) := by
    rw [whole, BitVec.and_or_distrib_left, BitVec.or_assoc]
  rw [split]
  apply WordField.or_field_inj
  · rw [BitVec.and_assoc, show addrMask &&& (0xfff : Word) = 0 by decide]
    exact BitVec.and_zero
  · rw [BitVec.and_or_distrib_right, baseHigh, BitVec.and_assoc, midHigh]
    exact BitVec.zero_or.trans BitVec.and_zero

private theorem huge_phys_eq_iff (e e2 v : Word) :
    (e &&& addrMask) ||| (v &&& 0xfff) =
        (e2 &&& 0x000fffffc0000000) ||| (v &&& 0x3fffffff) ↔
      e &&& addrMask = (e2 &&& 0x000fffffc0000000) ||| (v &&& 0x3ffff000) := by
  apply phys_eq_iff (by decide) (by decide)
  rw [BitVec.and_assoc]
  exact BitVec.and_zero

private theorem big_phys_eq_iff (e e3 v : Word) :
    (e &&& addrMask) ||| (v &&& 0xfff) =
        (e3 &&& 0x000fffffffe00000) ||| (v &&& 0x1fffff) ↔
      e &&& addrMask = (e3 &&& 0x000fffffffe00000) ||| (v &&& 0x1ff000) := by
  apply phys_eq_iff (by decide) (by decide)
  rw [BitVec.and_assoc]
  exact BitVec.and_zero

/-- `translate` as the source writes it, one test per level. -/
private theorem translate_levels (k : Machine) (aspace : AddressSpace)
    (v : VirtAddr) (canonical : isCanonical v = true) :
    translate k aspace v =
      (let e1 := readEntry k.mem (k.asX86 aspace).pml4Phys (pml4Index v)
      let e2 := readEntry k.mem (e1 &&& addrMask) (pdptIndex v)
      let e3 := readEntry k.mem (e2 &&& addrMask) (pdIndex v)
      let e4 := readEntry k.mem (e3 &&& addrMask) (ptIndex v)
      if !present e1 then .error .notMapped
      else if !present e2 then .error .notMapped
      else if !present e3 then .error .notMapped
      else if !present e4 then .error .notMapped
      else .ok ((e4 &&& addrMask) ||| (v &&& 0xfff))) := by
  simp only [translate, canonical, walkToPt]
  split
  · contradiction
  · repeat' split
    all_goals simp_all

/-- For a canonical address `translate` agrees with the processor exactly when
the walk does not end in a large page, or that large page reads back. -/
theorem translate_agrees_iff (k : Machine) (aspace : AddressSpace) (v : VirtAddr)
    (canonical : isCanonical v = true) :
    TranslateAgrees k aspace v ↔
      (largePage k.mem (k.asX86 aspace).pml4Phys v = true →
        largePageReadsBack k.mem (k.asX86 aspace).pml4Phys v = true) := by
  rw [TranslateAgrees, translate_levels k aspace v canonical]
  simp only [hwWalk, largePage, largePageReadsBack]
  generalize readEntry k.mem (k.asX86 aspace).pml4Phys (pml4Index v) = e1
  generalize readEntry k.mem (e1 &&& addrMask) (pdptIndex v) = e2
  generalize readEntry k.mem (e2 &&& addrMask) (pdIndex v) = e3
  generalize readEntry k.mem (e3 &&& addrMask) (ptIndex v) = e4
  cases first : present e1 with
  | false => simp
  | true =>
      cases second : present e2 with
      | false => simp
      | true =>
          cases huge : isLarge e2 with
          | true =>
              -- a 1 GiB page: the code reads two more words out of it
              cases third : present e3 with
              | false => simp
              | true =>
                  cases fourth : present e4 with
                  | false => simp
                  | true => simpa [HwMapping.ofEntries] using huge_phys_eq_iff e4 e2 v
          | false =>
              cases third : present e3 with
              | false => simp
              | true =>
                  cases big : isLarge e3 with
                  | true =>
                      -- a 2 MiB page: the code reads one more word out of it
                      cases fourth : present e4 with
                      | false => simp
                      | true =>
                          simpa [HwMapping.ofEntries] using big_phys_eq_iff e4 e3 v
                  | false =>
                      cases fourth : present e4 with
                      | false => simp
                      | true => simp [HwMapping.ofEntries]

/-! ### A kernel root with a 1 GiB page -/

/-- PML4 at `0x1000`, PDPT at `0x2000`, and a 1 GiB page at physical `1 GiB`
mapped at virtual address zero. -/
def hugePageMachine : Machine :=
  { Machine.boot fun a =>
      if a = 0x1000 then 0x2003 else if a = 0x2000 then 0x40000083 else 0 with
    kas := some ⟨0x1000⟩
    kasHandle := some .kas }

/-- The processor maps address zero to `1 GiB`; `translate` says `NotMapped`. -/
theorem translate_misses_huge_page :
    isCanonical 0 = true ∧
      (hwWalk hugePageMachine.mem 0x1000 0).map HwMapping.phys = some 0x40000000 ∧
      translate hugePageMachine .kas 0 = .error .notMapped ∧
      ¬ TranslateAgrees hugePageMachine .kas 0 := by
  have walked : hwWalk hugePageMachine.mem 0x1000 0 =
      some { phys := 0x40000000, user := false, writable := true, executable := true } := by
    decide +kernel
  have result : translate hugePageMachine .kas 0 = .error .notMapped := by
    decide +kernel
  refine ⟨by decide, by rw [walked]; rfl, result, ?_⟩
  have root : (hugePageMachine.asX86 .kas).pml4Phys = 0x1000 := rfl
  rw [TranslateAgrees, root, walked, result]
  exact not_reports_notMapped_some _

/-- On an address of the same root that no large page covers the two agree. -/
theorem translate_agrees_outside_huge_page :
    TranslateAgrees hugePageMachine .kas 0x40000000 :=
  (translate_agrees_iff hugePageMachine .kas 0x40000000 (by decide)).mpr
    (by decide +kernel)

end RincOs
