/-
Module: RincOs.Proofs.StringArena
Purpose: The string buffer over whole sequences of `strbuf_alloc_copy` and
  `strbuf_alloc_join`.  The spans handed out stay inside the buffer, apart from
  each other, and keep their bytes.
Trusted boundary: none
Main exports:
  ArenaCall, ArenaCall.exec_eq, ArenaRun, ArenaInv, ArenaRun.inv, arena_of_run,
  arena_greeting
-/
import RincOs.Proofs.BootStrings

namespace RincOs

open ByteMemory

/-! ### Calls -/

/-- A slice: bytes of physical memory, which has 52-bit addresses, apart from the part of the
buffer that is still free.  No sum of lengths that the calls form overflows. -/
structure StrView.IsSlice (statics : ImportStatics) (hhdmOffset : Word) (s : ImportState)
    (view : StrView) : Prop where
  fits : (view.ptr - hhdmOffset).toNat + view.len ≤ 2 ^ 52
  apart : ∀ i < view.len,
    ¬ (statics.strbuf.phys.toNat + s.used ≤ (view.ptr - hhdmOffset).toNat + i ∧
      (view.ptr - hhdmOffset).toNat + i < statics.strbuf.phys.toNat + strbufSize)

inductive ArenaCall
  | copy (bytes : StrView)
  | join (a b : StrView)

namespace ArenaCall

def exec (statics : ImportStatics) (hhdmOffset : Word) (s : ImportState) :
    ArenaCall → ByteSpan × ImportState
  | .copy bytes => strbufAllocCopy statics hhdmOffset bytes s
  | .join a b => strbufAllocJoin statics hhdmOffset a b s

/-- The arguments are slices. -/
def Allowed (statics : ImportStatics) (hhdmOffset : Word) (s : ImportState) : ArenaCall → Prop
  | .copy bytes => bytes.IsSlice statics hhdmOffset s
  | .join a b => a.IsSlice statics hhdmOffset s ∧ b.IsSlice statics hhdmOffset s

/-- What a call is to keep: the slice, or the two slices with a blank between them, or the
one of them that is not empty. -/
def data (hhdmOffset : Word) (m : Mem) : ArenaCall → List (BitVec 8)
  | .copy bytes => bytes.bytes hhdmOffset m
  | .join a b =>
      if a.len = 0 then b.bytes hhdmOffset m
      else if b.len = 0 then a.bytes hhdmOffset m
      else a.bytes hhdmOffset m ++ [0x20] ++ b.bytes hhdmOffset m

end ArenaCall

/-- There is nothing to keep, or no room for it. -/
def Refused (data : List (BitVec 8)) (s : ImportState) : Prop :=
  data = [] ∨ strbufSize < strbufNext s + data.length

instance (data : List (BitVec 8)) (s : ImportState) : Decidable (Refused data s) :=
  inferInstanceAs (Decidable (_ ∨ _))

variable {statics : ImportStatics} {hhdmOffset : Word} {s : ImportState}

theorem length_bytes (m : Mem) (view : StrView) :
    (view.bytes hhdmOffset m).length = view.len :=
  length_readBytes _ _

theorem fits_of_not_refused {data : List (BitVec 8)} (kept : ¬ Refused data s) :
    Fits (some data) s := by
  intro bytes same
  obtain rfl := Option.some.inj same
  rw [Refused, not_or, ← List.length_eq_zero_iff] at kept
  omega

/-! ### One call -/

theorem strbufAllocCopy_cases (view : StrView) :
    strbufAllocCopy statics hhdmOffset view s =
      if Refused (view.bytes hhdmOffset s.mem) s then (.empty, s)
      else stored statics (view.bytes hhdmOffset s.mem) s := by
  have length := @length_bytes hhdmOffset s.mem view
  by_cases refused : Refused (view.bytes hhdmOffset s.mem) s
  · rw [if_pos refused, strbufAllocCopy]
    rw [Refused, ← List.length_eq_zero_iff, length] at refused
    rcases refused with empty | full
    · rw [if_pos empty]
    · dsimp only
      rw [if_pos full, ite_self]
  · obtain ⟨nonempty, room⟩ := fits_of_not_refused refused _ rfl
    rw [if_neg refused]
    exact strbufAllocCopy_eq length.symm rfl nonempty room

/-- What is written to the free part of the buffer changes no slice. -/
theorem StrView.IsSlice.bytes_write {view : StrView}
    (slice : view.IsSlice statics hhdmOffset s) {written : List (BitVec 8)}
    (room : strbufNext s + written.length ≤ strbufSize) :
    view.bytes hhdmOffset
        (writeBytes s.mem (statics.strbuf.phys.toNat + strbufNext s) written) =
      view.bytes hhdmOffset s.mem := by
  have physical := statics.strbuf_fits
  have fits := slice.fits
  have next := used_le_next s
  apply readBytes_congr
  intro i inside
  have apart := slice.apart i inside
  exact byteAt_writeBytes_outside (by omega) (by omega) (by omega)

theorem strbufAllocJoin_cases {a b : StrView} (slice : b.IsSlice statics hhdmOffset s) :
    strbufAllocJoin statics hhdmOffset a b s =
      if Refused ((ArenaCall.join a b).data hhdmOffset s.mem) s then (.empty, s)
      else stored statics ((ArenaCall.join a b).data hhdmOffset s.mem) s := by
  have lengthA := @length_bytes hhdmOffset s.mem a
  have lengthB := @length_bytes hhdmOffset s.mem b
  rw [ArenaCall.data]
  by_cases noFirst : a.len = 0
  · rw [if_pos noFirst, strbufAllocJoin, if_pos noFirst, strbufAllocCopy_cases]
  by_cases noSecond : b.len = 0
  · rw [if_neg noFirst, if_pos noSecond, strbufAllocJoin, if_neg noFirst, if_pos noSecond,
      strbufAllocCopy_cases]
  rw [if_neg noFirst, if_neg noSecond]
  by_cases refused : Refused
      (a.bytes hhdmOffset s.mem ++ [0x20] ++ b.bytes hhdmOffset s.mem) s
  · rw [if_pos refused, strbufAllocJoin, if_neg noFirst, if_neg noSecond]
    have full : strbufSize < strbufNext s + (a.len + [(0x20 : BitVec 8)].length + b.len) := by
      rcases refused with empty | full
      · simp at empty
      · rwa [List.length_append, List.length_append, lengthA, lengthB] at full
    dsimp only
    rw [if_pos full]
  · obtain ⟨-, room⟩ := fits_of_not_refused refused _ rfl
    rw [if_neg refused]
    have before := room
    rw [List.length_append] at before
    exact strbufAllocJoin_eq lengthA.symm lengthB.symm rfl (slice.bytes_write (by omega))
      (by omega) (by omega) room

/-- A call is refused and changes nothing, or keeps its data at the next place. -/
theorem ArenaCall.exec_eq {call : ArenaCall} (allowed : call.Allowed statics hhdmOffset s) :
    call.exec statics hhdmOffset s =
      if Refused (call.data hhdmOffset s.mem) s then (.empty, s)
      else stored statics (call.data hhdmOffset s.mem) s := by
  cases call with
  | copy bytes => exact strbufAllocCopy_cases bytes
  | join a b => exact strbufAllocJoin_cases allowed.2

/-- The span of data that is kept is not the empty one. -/
theorem stored_ne_empty {data : List (BitVec 8)} (kept : ¬ Refused data s) :
    (stored statics data s).1 ≠ .empty := by
  obtain ⟨nonempty, room⟩ := fits_of_not_refused kept _ rfl
  intro same
  have length := @stored_len statics s data room
  rw [same] at length
  change 0 = _ at length
  omega

/-! ### Sequences of calls -/

/-- The calls made so far, the latest first, with what each was to keep.  Between calls the
rest of the system may write anywhere but to the buffer. -/
inductive ArenaRun (statics : ImportStatics) (hhdmOffset : Word) :
    List (ByteSpan × List (BitVec 8)) → ImportState → Prop
  | start (m : Mem) : ArenaRun statics hhdmOffset [] { mem := m, used := 0 }
  | call {history : List (ByteSpan × List (BitVec 8))} {s : ImportState} {call : ArenaCall} :
      ArenaRun statics hhdmOffset history s → call.Allowed statics hhdmOffset s →
      ArenaRun statics hhdmOffset
        (((call.exec statics hhdmOffset s).1, call.data hhdmOffset s.mem) :: history)
        (call.exec statics hhdmOffset s).2
  | other {history : List (ByteSpan × List (BitVec 8))} {s : ImportState} {m : Mem} :
      ArenaRun statics hhdmOffset history s →
      (∀ i < strbufSize, byteAt m (statics.strbuf.phys.toNat + i) =
        byteAt s.mem (statics.strbuf.phys.toNat + i)) →
      ArenaRun statics hhdmOffset history { s with mem := m }

/-- The spans are in the used part of the buffer, at offsets divisible by 8, apart from each
other, and hold their bytes. -/
structure ArenaInv (statics : ImportStatics) (history : List (ByteSpan × List (BitVec 8)))
    (s : ImportState) : Prop where
  bounded : s.used ≤ strbufSize
  aligned : ∀ call ∈ history, call.1 ≠ .empty →
    (call.1.ptr.toNat - statics.strbuf.ptr.toNat) % 8 = 0
  names : ∀ call ∈ history, call.1 ≠ .empty →
    call.2 ≠ [] ∧ Names statics s.used s.mem call.1 (some call.2)
  apart : history.Pairwise fun later earlier =>
    ∀ x, ¬ (earlier.1.Covers x ∧ later.1.Covers x)

section

variable {history : List (ByteSpan × List (BitVec 8))} {data : List (BitVec 8)}

theorem ArenaInv.refused (inv : ArenaInv statics history s) :
    ArenaInv statics ((.empty, data) :: history) s := by
  refine ⟨inv.bounded, ?_, ?_, List.pairwise_cons.mpr ⟨?_, inv.apart⟩⟩
  · intro call among nonempty
    rcases List.mem_cons.mp among with rfl | earlier
    · exact absurd rfl nonempty
    · exact inv.aligned call earlier nonempty
  · intro call among nonempty
    rcases List.mem_cons.mp among with rfl | earlier
    · exact absurd rfl nonempty
    · exact inv.names call earlier nonempty
  · intro earlier _ x covers
    exact absurd covers.2.2 (Nat.not_lt_zero x)

theorem ArenaInv.stored (inv : ArenaInv statics history s) (kept : ¬ Refused data s) :
    ArenaInv statics (((RincOs.stored statics data s).1, data) :: history)
      (RincOs.stored statics data s).2 := by
  have fits := fits_of_not_refused kept
  obtain ⟨nonempty, room⟩ := fits data rfl
  have isNonempty : data ≠ [] := by
    rintro rfl
    exact absurd nonempty (by decide)
  refine ⟨room, ?_, ?_, List.pairwise_cons.mpr ⟨?_, inv.apart⟩⟩
  · intro call among someSpan
    rcases List.mem_cons.mp among with rfl | earlier
    · rw [stored_ptr nonempty room, Nat.add_sub_cancel_left, strbufNext]
      exact Nat.mul_mod_left _ _
    · exact inv.aligned call earlier someSpan
  · intro call among someSpan
    rcases List.mem_cons.mp among with rfl | earlier
    · exact ⟨isNonempty, storedOption_names fits⟩
    · obtain ⟨old, names⟩ := inv.names call earlier someSpan
      exact ⟨old, names.kept fits⟩
  · intro earlier among x covers
    by_cases someSpan : earlier.1 = .empty
    · rw [someSpan] at covers
      exact absurd covers.1.2 (Nat.not_lt_zero x)
    · exact (inv.names earlier among someSpan).2.apart fits x covers

theorem ArenaInv.other {m : Mem} (inv : ArenaInv statics history s)
    (same : ∀ i < strbufSize, byteAt m (statics.strbuf.phys.toNat + i) =
      byteAt s.mem (statics.strbuf.phys.toNat + i)) :
    ArenaInv statics history { s with mem := m } := by
  refine ⟨inv.bounded, inv.aligned, ?_, inv.apart⟩
  intro call among someSpan
  obtain ⟨nonempty, names⟩ := inv.names call among someSpan
  refine ⟨nonempty, names.absent, ?_⟩
  intro bytes isBytes
  obtain ⟨length, off, start, inside, reads⟩ := names.present bytes isBytes
  refine ⟨length, off, start, inside, ?_⟩
  have bounded := inv.bounded
  apply Eq.trans _ reads
  apply readBytes_congr
  intro i small
  rw [Nat.add_assoc]
  exact same (off + i) (by omega)

theorem ArenaRun.inv (run : ArenaRun statics hhdmOffset history s) :
    ArenaInv statics history s := by
  induction run with
  | start m => exact ⟨Nat.zero_le _, by simp, by simp, .nil⟩
  | @call history s call _ allowed inductionHypothesis =>
      rw [ArenaCall.exec_eq allowed]
      split
      · exact inductionHypothesis.refused
      · rename_i kept
        exact inductionHypothesis.stored kept
  | other _ same inductionHypothesis => exact inductionHypothesis.other same

/-- Over any sequence of calls the spans stay in the buffer, apart and intact, and a call
returns the empty span exactly if there is nothing to keep or no room, and then changes
nothing. -/
theorem arena_of_run (run : ArenaRun statics hhdmOffset history s) :
    ArenaInv statics history s ∧
      ∀ call : ArenaCall, call.Allowed statics hhdmOffset s →
        ((call.exec statics hhdmOffset s).1 = .empty ↔
          Refused (call.data hhdmOffset s.mem) s) ∧
        ((call.exec statics hhdmOffset s).1 = .empty →
          (call.exec statics hhdmOffset s).2 = s) := by
  refine ⟨run.inv, ?_⟩
  intro call allowed
  rw [ArenaCall.exec_eq allowed]
  split
  · rename_i refused
    exact ⟨⟨fun _ => refused, fun _ => rfl⟩, fun _ => rfl⟩
  · rename_i kept
    have some := @stored_ne_empty statics s _ kept
    exact ⟨⟨fun empty => absurd empty some, fun refused => absurd refused kept⟩,
      fun empty => absurd empty some⟩

end

/-- Two bytes at 0x1000 and one at 0x1010, joined; the direct map starts the higher half. -/
theorem arena_greeting :
    ∃ history s, ArenaRun oneEntryStatics 0xffff800000000000 history s ∧ s.used = 4 ∧
      history.map Prod.snd = [[0x68, 0x69, 0x20, 0x4c]] ∧
      ArenaInv oneEntryStatics history s := by
  let call : ArenaCall := .join { ptr := 0xffff800000001000, len := 2 }
    { ptr := 0xffff800000001010, len := 1 }
  have slice : ∀ view : StrView, (view.ptr - 0xffff800000000000).toNat + view.len ≤ 0x2000 →
      view.IsSlice oneEntryStatics 0xffff800000000000 { mem := oneEntryMem, used := 0 } := by
    intro view low
    have buffer : oneEntryStatics.strbuf.phys.toNat = 0x210000 := rfl
    constructor
    · omega
    · intro i inside
      rw [buffer]
      omega
  have run := @ArenaRun.call oneEntryStatics 0xffff800000000000 _ _ call (.start oneEntryMem)
    ⟨slice _ (by decide), slice _ (by decide)⟩
  exact ⟨_, _, run, by decide +kernel, by decide +kernel, (arena_of_run run).1⟩

end RincOs
