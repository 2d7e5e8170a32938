/-
Module: RincOs.Proofs.StringReads
Purpose: Where `cstr_view` reads, for pointers and memory maps of any kind.  All
  bytes it compares with NUL lie in one entry of the map that it has checked,
  and what it returns is a string whose end it has seen.
Trusted boundary: none
Main exports:
  hhdmAddress, FoundString, cstrView_eq, physAvailable_some, cstrSlice_some,
  cstrView_hhdm, cstrView_reads
-/
import RincOs.Proofs.BootStrings

namespace RincOs

open ByteMemory

variable {statics : ImportStatics} {ptr hhdmOffset : Word} {view : MemMapView} {m m' : Mem}
variable {slice : StrView}

/-! ### The slice -/

/-- `cstr_view` in two parts: the slice it forms, and the search in it. -/
theorem cstrView_eq :
    cstrView statics ptr hhdmOffset view m =
      (cstrSlice statics ptr hhdmOffset view m).bind fun slice =>
        ((slice.bytes hhdmOffset m).findIdx? (· = 0)).bind fun len =>
          if len = 0 then none else some { ptr := slice.ptr, len := len } := by
  rw [cstrView, cstrSlice, mapEntries]
  split
  · rfl
  · dsimp only
    cases resolveLiminePtr ptr hhdmOffset
        ((List.range view.entryCount.toNat).map (statics.membuf.entry m)) with
    | none => rfl
    | some found =>
        simp only [Option.bind_eq_bind, Option.bind_some]
        split
        · rfl
        · rfl

/-- The address in the direct map of what a pointer of either kind points to. -/
def hhdmAddress (hhdmOffset ptr : Word) : Word :=
  if ptr < hhdmOffset then ptr + hhdmOffset else ptr

/-- The room behind an address ends where an entry ends that covers it. -/
theorem physAvailable_some {phys max : Word} {entries : List MemMapEntry}
    (available : physAvailable phys entries = some max) :
    ∃ entry ∈ entries, entry.base.toNat + entry.len.toNat < 2 ^ 64 ∧
      entry.Covers phys.toNat ∧
      max.toNat = entry.base.toNat + entry.len.toNat - phys.toNat := by
  induction entries with
  | nil => cases available
  | cons first entries inductionHypothesis =>
      by_cases fits : first.base.toNat + first.len.toNat < 2 ^ 64
      · by_cases covered : first.Covers phys.toNat
        · obtain ⟨decided, room⟩ := @physAvailable_covered _ entries _ fits covered
          rw [decided] at available
          obtain rfl := Option.some.inj available
          exact ⟨first, List.mem_cons_self, fits, covered, room⟩
        · rw [physAvailable_uncovered fits covered] at available
          obtain ⟨entry, among, rest⟩ := inductionHypothesis available
          exact ⟨entry, .tail _ among, rest⟩
      · rw [physAvailable, checkedAdd, if_neg fits] at available
        cases available

/-- A pointer comes with the room behind its physical address. -/
theorem withRoom_some {phys v virt max : Word} {entries : List MemMapEntry}
    (resolved : (do let room ← physAvailable phys entries; some (v, room)) = some (virt, max)) :
    virt = v ∧ physAvailable phys entries = some max := by
  cases available : physAvailable phys entries with
  | none => simp [available] at resolved
  | some room =>
      simp only [available, Option.bind_eq_bind, Option.bind_some, Option.some.injEq,
        Prod.mk.injEq] at resolved
      obtain ⟨rfl, rfl⟩ := resolved
      exact ⟨rfl, rfl⟩

/-- Either way a pointer is read, it stands for the same physical address. -/
theorem resolveLiminePtr_some {virt max : Word} {entries : List MemMapEntry}
    (resolved : resolveLiminePtr ptr hhdmOffset entries = some (virt, max)) :
    virt = hhdmAddress hhdmOffset ptr ∧ physAvailable (virt - hhdmOffset) entries = some max := by
  rw [resolveLiminePtr] at resolved
  split at resolved
  · rename_i physical
    obtain ⟨rfl, available⟩ := withRoom_some resolved
    rw [hhdmAddress, if_pos physical.2, BitVec.add_sub_cancel]
    exact ⟨rfl, available⟩
  · rename_i mapped
    have notBelow : ¬ ptr < hhdmOffset := by
      intro below
      apply mapped
      refine ⟨?_, below⟩
      rintro rfl
      exact absurd below (Nat.not_lt_zero _)
    have phys : (if hhdmOffset ≠ 0 then ptr - hhdmOffset else ptr) = ptr - hhdmOffset := by
      split
      · rfl
      · rename_i zero
        rw [Decidable.not_not.mp zero]
        exact (BitVec.sub_zero ptr).symm
    rw [phys] at resolved
    obtain ⟨rfl, available⟩ := withRoom_some resolved
    rw [hhdmAddress, if_neg notBelow]
    exact ⟨rfl, available⟩

/-- The slice lies in one entry that ends below 2⁶⁴, and has 1 to 1024 bytes. -/
theorem cstrSlice_some (formed : cstrSlice statics ptr hhdmOffset view m = some slice) :
    slice.ptr = hhdmAddress hhdmOffset ptr ∧ 1 ≤ slice.len ∧ slice.len ≤ maxStrBytes ∧
      ∃ entry ∈ mapEntries statics view m, entry.base.toNat + entry.len.toNat < 2 ^ 64 ∧
        entry.base.toNat ≤ (slice.ptr - hhdmOffset).toNat ∧
        (slice.ptr - hhdmOffset).toNat + slice.len ≤ entry.base.toNat + entry.len.toNat := by
  rw [cstrSlice] at formed
  split at formed
  · cases formed
  · cases resolved : resolveLiminePtr ptr hhdmOffset (mapEntries statics view m) with
    | none => simp [resolved] at formed
    | some found =>
        obtain ⟨virt, max⟩ := found
        simp only [resolved, Option.bind_eq_bind, Option.bind_some] at formed
        split at formed
        · cases formed
        · rename_i positive
          obtain rfl := Option.some.inj formed
          obtain ⟨address, available⟩ := resolveLiminePtr_some resolved
          obtain ⟨entry, among, fits, covers, room⟩ := physAvailable_some available
          refine ⟨address, Nat.pos_of_ne_zero positive, Nat.min_le_right _ _, entry, among,
            fits, covers.1, ?_⟩
          have short : min max.toNat maxStrBytes ≤ max.toNat := Nat.min_le_left _ _
          have high := covers.2
          dsimp only
          omega

/-! ### The search -/

/-- Where the search ends, the first NUL of the slice stands. -/
theorem findIdx_bytes_iff {len : Nat} :
    (slice.bytes hhdmOffset m).findIdx? (· = 0) = some len ↔
      len < slice.len ∧ byteAt m ((slice.ptr - hhdmOffset).toNat + len) = 0 ∧
        ∀ i < len, byteAt m ((slice.ptr - hhdmOffset).toNat + i) ≠ 0 := by
  rw [StrView.bytes, List.findIdx?_eq_some_iff_getElem]
  constructor
  · rintro ⟨inside, isZero, before⟩
    have short := inside
    rw [length_readBytes] at short
    rw [getElem_readBytes, decide_eq_true_eq] at isZero
    refine ⟨short, isZero, ?_⟩
    intro i earlier zero
    apply before i earlier
    rw [getElem_readBytes, zero]
    rfl
  · rintro ⟨short, isZero, before⟩
    refine ⟨by rw [length_readBytes]; exact short, ?_, ?_⟩
    · rw [getElem_readBytes, isZero]
      rfl
    · intro i earlier zero
      rw [getElem_readBytes, decide_eq_true_eq] at zero
      exact before i earlier zero

theorem length_examined_le : (slice.examined hhdmOffset m).length ≤ slice.len := by
  rw [StrView.examined, List.length_map, List.length_range]
  split
  · rename_i len found
    exact (findIdx_bytes_iff.mp found).1
  · exact le_rfl

/-- The physical address of byte `i` of the slice. -/
theorem toNat_sliceAddr (fits : (slice.ptr - hhdmOffset).toNat + slice.len < 2 ^ 64) {i : Nat}
    (inside : i < slice.len) :
    (slice.ptr + BitVec.ofNat 64 i - hhdmOffset).toNat =
      (slice.ptr - hhdmOffset).toNat + i := by
  have shifted : slice.ptr + BitVec.ofNat 64 i - hhdmOffset =
      slice.ptr - hhdmOffset + BitVec.ofNat 64 i := by
    rw [BitVec.sub_eq_add_neg, BitVec.sub_eq_add_neg, BitVec.add_assoc, BitVec.add_assoc,
      BitVec.add_comm (BitVec.ofNat 64 i)]
  rw [shifted, BitVec.toNat_add, BitVec.toNat_ofNat]
  omega

theorem mem_examined {a : Word} (examined : a ∈ slice.examined hhdmOffset m)
    (fits : (slice.ptr - hhdmOffset).toNat + slice.len < 2 ^ 64) :
    ∃ i < slice.len, (a - hhdmOffset).toNat = (slice.ptr - hhdmOffset).toNat + i := by
  have bound := @length_examined_le hhdmOffset m slice
  rw [StrView.examined, List.length_map, List.length_range] at bound
  rw [StrView.examined, List.mem_map] at examined
  obtain ⟨i, inRange, rfl⟩ := examined
  have inside : i < slice.len := (List.mem_range.mp inRange).trans_le bound
  exact ⟨i, inside, toNat_sliceAddr fits inside⟩

/-! ### The whole function -/

/-- A physical address and its address in the direct map are found alike. -/
theorem cstrView_hhdm (nonnull : ptr ≠ 0) (physical : ptr < hhdmOffset)
    (reaches : ptr.toNat + hhdmOffset.toNat < 2 ^ 64) :
    cstrView statics (ptr + hhdmOffset) hhdmOffset view m =
      cstrView statics ptr hhdmOffset view m := by
  have sum : (ptr + hhdmOffset).toNat = ptr.toNat + hhdmOffset.toNat := by
    rw [BitVec.toNat_add, Nat.mod_eq_of_lt reaches]
  have positive : hhdmOffset ≠ 0 := by
    rintro rfl
    exact absurd physical (Nat.not_lt_zero _)
  have mapped : ¬ (hhdmOffset ≠ 0 ∧ ptr + hhdmOffset < hhdmOffset) := by
    rw [BitVec.lt_def, sum]
    omega
  have nonnull' : ptr + hhdmOffset ≠ 0 := by
    intro zero
    rw [zero] at sum
    change 0 = _ at sum
    rw [BitVec.lt_def] at physical
    omega
  have resolved : ∀ entries, resolveLiminePtr (ptr + hhdmOffset) hhdmOffset entries =
      resolveLiminePtr ptr hhdmOffset entries := by
    intro entries
    simp only [resolveLiminePtr, if_neg mapped, if_pos positive,
      if_pos (And.intro positive physical), BitVec.add_sub_cancel]
  have guard : (ptr + hhdmOffset = 0) = (ptr = 0) := by
    rw [eq_false nonnull', eq_false nonnull]
  simp only [cstrView, resolved, guard]

/-- A string that `cstr_view` has found for a pointer. -/
structure FoundString (hhdmOffset : Word) (m : Mem) (ptr : Word) (found : StrView) : Prop where
  nonempty : 1 ≤ found.len
  short : found.len ≤ 1023
  nonzero : ∀ i < found.len, byteAt m ((found.ptr - hhdmOffset).toNat + i) ≠ 0
  terminated : byteAt m ((found.ptr - hhdmOffset).toNat + found.len) = 0
  address : found.ptr = hhdmAddress hhdmOffset ptr

theorem foundString_of_cstrView {found : StrView}
    (answer : cstrView statics ptr hhdmOffset view m = some found) :
    FoundString hhdmOffset m ptr found := by
  rw [cstrView_eq, Option.bind_eq_some_iff] at answer
  obtain ⟨slice, formed, answer⟩ := answer
  rw [Option.bind_eq_some_iff] at answer
  obtain ⟨len, isLen, answer⟩ := answer
  split at answer
  · cases answer
  · rename_i positive
    obtain rfl := Option.some.inj answer
    obtain ⟨address, -, bound, -⟩ := cstrSlice_some formed
    obtain ⟨short, isZero, before⟩ := findIdx_bytes_iff.mp isLen
    rw [maxStrBytes] at bound
    exact ⟨Nat.pos_of_ne_zero positive, by dsimp only; omega, before, isZero, address⟩

/-- Whatever the pointer, the direct map and the memory map are: all bytes examined lie in
one entry that ends below 2⁶⁴, they are 1024 at most, a view returned is a terminated string
at the direct-map address, and the same one for both addresses of it. -/
theorem cstrView_reads (statics : ImportStatics) (ptr hhdmOffset : Word) (view : MemMapView)
    (m : Mem) :
    (cstrExamined statics ptr hhdmOffset view m ≠ [] →
        ∃ entry ∈ mapEntries statics view m, entry.base.toNat + entry.len.toNat < 2 ^ 64 ∧
          ∀ a ∈ cstrExamined statics ptr hhdmOffset view m,
            entry.Covers (a - hhdmOffset).toNat) ∧
      (cstrExamined statics ptr hhdmOffset view m).length ≤ 1024 ∧
      (∀ found, cstrView statics ptr hhdmOffset view m = some found →
        FoundString hhdmOffset m ptr found) ∧
      (ptr ≠ 0 → ptr < hhdmOffset → ptr.toNat + hhdmOffset.toNat < 2 ^ 64 →
        cstrView statics (ptr + hhdmOffset) hhdmOffset view m =
          cstrView statics ptr hhdmOffset view m) := by
  refine ⟨?_, ?_, fun _ => foundString_of_cstrView, cstrView_hhdm⟩
  · intro some
    cases formed : cstrSlice statics ptr hhdmOffset view m with
    | none =>
        rw [cstrExamined, formed] at some
        exact absurd rfl some
    | some slice =>
        obtain ⟨-, -, -, entry, among, fits, low, room⟩ := cstrSlice_some formed
        refine ⟨entry, among, fits, ?_⟩
        intro a examined
        rw [cstrExamined, formed] at examined
        obtain ⟨i, inside, place⟩ := mem_examined examined (by omega)
        rw [MemMapEntry.Covers, place]
        omega
  · cases formed : cstrSlice statics ptr hhdmOffset view m with
    | none =>
        rw [cstrExamined, formed]
        exact Nat.zero_le _
    | some slice =>
        obtain ⟨-, -, bound, -⟩ := cstrSlice_some formed
        rw [cstrExamined, formed]
        exact length_examined_le.trans bound

end RincOs
